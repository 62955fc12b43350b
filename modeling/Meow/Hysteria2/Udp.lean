import Meow.Hysteria2.Proto

/-!
# Fragments of Hysteria2 UDP packets

The sender cuts a packet that does not fit one QUIC datagram into numbered fragments. The
receiver collects the fragments of each packet number in a table of slots and delivers the
packet with the last of them; a packet whose first fragment is older than `FRAGMENT_TTL` is
forgotten. Model of `send_udp` and `send_one_udp` in `hysteria2/driver.rs` and of `UdpDefragger`
in `hysteria2/udp.rs`.

## Main definitions

* `sendUdp` — the datagrams of a packet.
* `UdpDefragger`, `UdpDefragger.feed`, `UdpDefragger.feedAll` — the receiver.
* `IsPacket` — one fragment for each number of one packet.
* `Interleaved` — the fragments of a packet arrive in any order among others.

## Main results

* `feed_spec` — everything that a message does to the table.
* `feedAll_spec` — what a run delivers comes from fragments of one packet.
* `sendUdp_reassembled` — a packet that was sent is delivered once.
-/

namespace Meow.Hysteria2

open List Option Function UInt8

/-! ### The sender -/

/-- The encoded message that `send_one_udp` hands to QUIC. -/
def sendOneUdp (msg : UdpMessage) : Option (List UInt8) := (encodeUdpMessage msg).toOption

/-- The messages of a packet, with at most `payloadLimit` bytes in each; none if there would be
more than 255 of them. -/
def packetMessages (sessionId : UInt32) (packetId : UInt16) (addr : Str) (data : List UInt8)
    (payloadLimit : ℕ) : List UdpMessage :=
  if data.length ≤ payloadLimit then
    [{ sessionId, packetId, fragId := 0, fragCount := 1, addr, data }]
  else
    let fragCount := divCeil data.length payloadLimit
    if fragCount > 255 then []
    else
      (chunks payloadLimit data).mapIdx fun i chunk =>
        { sessionId, packetId, fragId := UInt8.ofNat i, fragCount := UInt8.ofNat fragCount, addr
          data := chunk }

/-- The next packet number afterwards, and the datagrams handed to QUIC. `maxWritable` is what
`dgram_max_writable_len` answers. -/
def sendUdp (nextPacketId : UInt16) (maxWritable : Option ℕ) (sessionId : UInt32) (addr : Str)
    (data : List UInt8) : UInt16 × List (List UInt8) :=
  let max := maxWritable.getD 0
  match udpHeaderLen addr with
  | .error _ => (nextPacketId, [])
  | .ok header =>
    let payloadLimit := max - header
    if payloadLimit = 0 then (nextPacketId, [])
    else
      (nextPacketId + 1,
        (packetMessages sessionId nextPacketId addr data payloadLimit).filterMap sendOneUdp)

/-! ### The receiver -/

/-- How long an incomplete packet is kept, in nanoseconds. -/
def FRAGMENT_TTL : ℕ := 10000000000

/-- The fragments of one packet that have arrived. -/
structure FragmentPacket where
  created : ℕ
  fragments : List (Option UdpMessage)
  received : ℕ
deriving DecidableEq

open FragmentPacket

/-- `FragmentPacket::new`, at the time `created`. -/
def FragmentPacket.new (created total : ℕ) : FragmentPacket :=
  { created, fragments := List.replicate total none, received := 0 }

/-- A message is put into its slot. -/
def FragmentPacket.put (item : FragmentPacket) (message : UdpMessage) : FragmentPacket :=
  { item with
    fragments := item.fragments.set message.fragId.toNat (some message)
    received := item.received + 1 }

/-- The incomplete packets by packet number. -/
structure UdpDefragger where
  packets : UInt16 → Option FragmentPacket

namespace UdpDefragger

def new : UdpDefragger := ⟨fun _ => none⟩

def insert (d : UdpDefragger) (packetId : UInt16) (item : FragmentPacket) : UdpDefragger :=
  ⟨Function.update d.packets packetId (some item)⟩

def remove (d : UdpDefragger) (packetId : UInt16) : UdpDefragger :=
  ⟨Function.update d.packets packetId none⟩

/-- Forget the packets that are too old. -/
def evictStale (d : UdpDefragger) (now : ℕ) : UdpDefragger :=
  ⟨fun k => (d.packets k).filter fun item => now - item.created ≤ FRAGMENT_TTL⟩

/-- The entry of a packet: a new one if there is none, or if it has another number of slots. -/
def entry (d : UdpDefragger) (packetId : UInt16) (created total : ℕ) : FragmentPacket :=
  match d.packets packetId with
  | none => FragmentPacket.new created total
  | some item =>
    if item.fragments.length ≠ total then FragmentPacket.new created total else item

end UdpDefragger

/-- The packet of its fragments, in their order. -/
def joinFragments : List UdpMessage → Except Error UdpMessage
  | [] => .error (.protocol (str "empty UDP fragment set"))
  | first :: rest =>
    let data := (first :: rest).flatMap UdpMessage.data
    if data.length > MAX_UDP_SIZE then
      .error (.protocol (str "reassembled UDP payload is too large"))
    else
      .ok
        { sessionId := first.sessionId, packetId := first.packetId, fragId := 0, fragCount := 1
          addr := first.addr, data }

/-- The packet of a full table. -/
def reassemble (item : FragmentPacket) : Except Error UdpMessage :=
  match item.fragments.mapM id with
  | none => .error (.protocol (str "incomplete UDP fragments"))
  | some fragments => joinFragments fragments

/-- A message with the clock readings made while it is fed: `now` when old packets are evicted,
`created` when a packet is entered. -/
structure Arrival where
  now : ℕ
  created : ℕ
  message : UdpMessage
deriving DecidableEq

open UdpDefragger

namespace UdpDefragger

/-- The end of `feed`, when the table of `item` is full. -/
def deliver (d : UdpDefragger) (item : FragmentPacket) :
    Except Error (Option UdpMessage) × UdpDefragger :=
  match (item.fragments[0]?).join with
  | none => (.error (.expect (str "complete packet has first fragment")), d)
  | some first =>
    match d.packets first.packetId with
    | none => (.error (.expect (str "fragment packet exists")), d)
    | some item => ((reassemble item).map some, d.remove first.packetId)

/-- `feed` for a fragment with a valid number, after the eviction. -/
def store (d : UdpDefragger) (created : ℕ) (message : UdpMessage) :
    Except Error (Option UdpMessage) × UdpDefragger :=
  let total := message.fragCount.toNat
  let item := d.entry message.packetId created total
  if (item.fragments[message.fragId.toNat]?).join.isSome then
    (.ok none, d.insert message.packetId item)
  else
    let item := item.put message
    let d := d.insert message.packetId item
    if item.received ≠ total then (.ok none, d) else d.deliver item

/-- One message is fed: what `feed` returns, and the table afterwards. -/
def feed (d : UdpDefragger) (a : Arrival) : Except Error (Option UdpMessage) × UdpDefragger :=
  let d := d.evictStale a.now
  if a.message.fragCount ≤ 1 then (.ok (some a.message), d)
  else if a.message.fragId ≥ a.message.fragCount then (.ok none, d)
  else d.store a.created a.message

/-- Messages are fed one after the other. -/
def feedAll : UdpDefragger → List Arrival → List (Except Error (Option UdpMessage)) × UdpDefragger
  | d, [] => ([], d)
  | d, a :: as => ((d.feed a).1 :: ((d.feed a).2.feedAll as).1, ((d.feed a).2.feedAll as).2)

variable (d : UdpDefragger)

lemma feedAll_append (as bs : List Arrival) :
    d.feedAll (as ++ bs) =
      ((d.feedAll as).1 ++ ((d.feedAll as).2.feedAll bs).1, ((d.feedAll as).2.feedAll bs).2) := by
  induction as generalizing d with
  | nil => rfl
  | cons a as ih => simp only [cons_append, feedAll, ih]

lemma length_feedAll (as : List Arrival) : (d.feedAll as).1.length = as.length := by
  induction as generalizing d with
  | nil => rfl
  | cons a as ih => simp only [feedAll, length_cons, ih]

@[simp] lemma insert_packets_self (k : UInt16) (item : FragmentPacket) :
    (d.insert k item).packets k = some item := update_self ..

variable {k k' : UInt16}

lemma insert_packets_of_ne (h : k' ≠ k) (item : FragmentPacket) :
    (d.insert k item).packets k' = d.packets k' := update_of_ne h ..

@[simp] lemma remove_packets_self (k : UInt16) : (d.remove k).packets k = none := update_self ..

lemma remove_packets_of_ne (h : k' ≠ k) :
    (d.remove k).packets k' = d.packets k' := update_of_ne h ..

variable {d} {item : FragmentPacket}

lemma evictStale_evictStale (now : ℕ) : (d.evictStale now).evictStale now = d.evictStale now := by
  simp only [evictStale, mk.injEq]
  funext k
  simp

end UdpDefragger

/-! ### What the table holds -/

/-- One message of `S` for each fragment number of the packet `k`. -/
def IsPacket (S : Set UdpMessage) (k : UInt16) (ms : List UdpMessage) : Prop :=
  ∀ i m, ms[i]? = some m →
    m ∈ S ∧ m.packetId = k ∧ m.fragId.toNat = i ∧ m.fragCount.toNat = ms.length

/-- The slots hold messages of `S` with the packet number `k`, each in the slot of its number, and
they are counted. -/
structure FragmentPacket.Holds (S : Set UdpMessage) (k : UInt16) (item : FragmentPacket) :
    Prop where
  slot : ∀ i m, item.fragments[i]? = some (some m) →
    m ∈ S ∧ m.packetId = k ∧ m.fragId.toNat = i ∧ m.fragCount.toNat = item.fragments.length
  count : item.received = item.fragments.countP Option.isSome

/-- Every entry holds messages of `S`. -/
def UdpDefragger.Sound (S : Set UdpMessage) (d : UdpDefragger) : Prop :=
  ∀ k item, d.packets k = some item → item.Holds S k

section Sound

variable {S : Set UdpMessage} {k : UInt16} {d : UdpDefragger}

lemma FragmentPacket.holds_new (created total : ℕ) :
    (new created total).Holds S k where
  slot i m h := by
    rw [new, getElem?_replicate] at h
    split_ifs at h
    cases h
  count := by simp [new, countP_replicate]

/-- The entry of a packet is a new one, or the one of the table. -/
lemma UdpDefragger.entry_cases (d : UdpDefragger) (k : UInt16) (created total : ℕ) :
    d.entry k created total = FragmentPacket.new created total ∨
      d.packets k = some (d.entry k created total) ∧
        (d.entry k created total).fragments.length = total := by
  rw [entry]
  cases d.packets k with
  | none => exact .inl rfl
  | some item =>
    simp only
    split_ifs with hlen
    · exact .inl rfl
    · exact .inr ⟨rfl, not_not.mp hlen⟩

lemma UdpDefragger.length_entry (d : UdpDefragger) (k : UInt16) (created total : ℕ) :
    (d.entry k created total).fragments.length = total := by
  obtain heq | ⟨-, hlen⟩ := d.entry_cases k created total
  · rw [heq]
    exact length_replicate
  · exact hlen

lemma UdpDefragger.Sound.entry (h : d.Sound S) (created total : ℕ) :
    (d.entry k created total).Holds S k := by
  obtain heq | ⟨hitem, -⟩ := d.entry_cases k created total
  · rw [heq]
    exact holds_new created total
  · exact h k _ hitem

lemma UdpDefragger.Sound.evictStale (h : d.Sound S) (now : ℕ) : (d.evictStale now).Sound S :=
  fun k item hk => h k item (Option.filter_eq_some_iff.mp hk).1

variable {item : FragmentPacket}

lemma UdpDefragger.Sound.insert (h : d.Sound S) (hitem : item.Holds S k) :
    (d.insert k item).Sound S := by
  intro k' item' hk'
  have hold := h k' item'
  grind [insert_packets_self, insert_packets_of_ne]

lemma UdpDefragger.Sound.remove (h : d.Sound S) (k : UInt16) : (d.remove k).Sound S := by
  intro k' item' hk'
  have hold := h k' item'
  grind [remove_packets_self, remove_packets_of_ne]

variable {m : UdpMessage}

/-- A message goes to a slot that was empty. -/
lemma FragmentPacket.Holds.put (h : item.Holds S k) (hm : m ∈ S) (hk : m.packetId = k)
    (hlen : m.fragCount.toNat = item.fragments.length)
    (hfrag : m.fragId.toNat < item.fragments.length)
    (hempty : item.fragments[m.fragId.toNat]? = some none) : (item.put m).Holds S k where
  slot i m' hi := by
    simp only [FragmentPacket.put, length_set, getElem?_set] at hi ⊢
    split_ifs at hi with heq
    · obtain rfl := some.inj (some.inj hi)
      exact ⟨hm, hk, heq, hlen⟩
    · exact h.slot i m' hi
  count := by
    have hget : item.fragments[m.fragId.toNat] = none := by
      rwa [getElem?_eq_getElem hfrag, some.injEq] at hempty
    simp only [FragmentPacket.put]
    rw [h.count, countP_set hfrag, hget]
    simp

lemma exists_map_some {α : Type} {l} (h : ∀ a ∈ l, a.isSome) : ∃ ms : List α, l = ms.map some := by
  induction l with
  | nil => exact ⟨[], rfl⟩
  | cons a l ih =>
    obtain ⟨ms, rfl⟩ := ih fun b hb => h b (mem_cons_of_mem a hb)
    obtain ⟨m, rfl⟩ := isSome_iff_exists.mp (h a mem_cons_self)
    exact ⟨m :: ms, rfl⟩

/-- A table whose count is the number of slots is full. -/
lemma FragmentPacket.Holds.full (h : item.Holds S k)
    (hfull : item.received = item.fragments.length) :
    ∃ ms, item.fragments = ms.map some ∧ IsPacket S k ms := by
  have hall := countP_eq_length.mp (h.count.symm.trans hfull)
  obtain ⟨ms, hms⟩ := exists_map_some hall
  refine ⟨ms, hms, fun i m hi => ?_⟩
  have hlen : ms.length = item.fragments.length := by rw [hms, length_map]
  rw [hlen]
  apply h.slot
  rw [hms, getElem?_map, hi]
  rfl

lemma mapM_id_map_some {α : Type} (l : List α) : (l.map some).mapM id = some l := by
  induction l with
  | nil => rfl
  | cons a l ih => simp [mapM_cons, ih]

/-- **What a fragment with a valid number does**: its slot is taken, or it is stored and the table
is not yet full, or the table is full with it and the packet is delivered.

**Proof sketch.** The entry has one slot for each fragment. In the last case the count says that
every slot is filled; the message in the first slot has the packet number of the entry, so the
two `expect`s hold. -/
lemma store_cases (hd : d.Sound S) (hm : m ∈ S) (hfrag : m.fragId < m.fragCount) (created : ℕ) :
    let item := d.entry m.packetId created m.fragCount.toNat
    ((∃ m', item.fragments[m.fragId.toNat]? = some (some m')) ∧
      d.store created m = (.ok none, d.insert m.packetId item)) ∨
    item.fragments[m.fragId.toNat]? = some none ∧ (item.put m).Holds S m.packetId ∧
      ((none ∈ (item.put m).fragments ∧
        d.store created m = (.ok none, d.insert m.packetId (item.put m))) ∨
      ∃ ms, (item.put m).fragments = ms.map some ∧ IsPacket S m.packetId ms ∧
        d.store created m = ((joinFragments ms).map some,
          (d.insert m.packetId (item.put m)).remove m.packetId)) := by
  intro item
  have hlen : item.fragments.length = m.fragCount.toNat :=
    d.length_entry m.packetId created m.fragCount.toNat
  have hidx : m.fragId.toNat < item.fragments.length := hlen ▸ lt_iff_toNat_lt.mp hfrag
  have hstore : d.store created m =
      if (item.fragments[m.fragId.toNat]?).join.isSome then
        (.ok none, d.insert m.packetId item)
      else if (item.put m).received ≠ m.fragCount.toNat then
        (.ok none, d.insert m.packetId (item.put m))
      else (d.insert m.packetId (item.put m)).deliver (item.put m) := rfl
  have hget := getElem?_eq_getElem hidx
  cases hslot : item.fragments[m.fragId.toNat] with
  | some m' =>
    rw [hslot] at hget
    left
    refine ⟨⟨m', hget⟩, ?_⟩
    rw [hstore, hget, if_pos (by rfl)]
  | none =>
    rw [hslot] at hget
    have hput : (item.put m).Holds S m.packetId :=
      (hd.entry created _).put hm rfl hlen.symm hidx hget
    have hputlen : (item.put m).fragments.length = m.fragCount.toNat := length_set.trans hlen
    right
    refine ⟨hget, hput, ?_⟩
    rw [hstore, hget, if_neg (by simp)]
    by_cases hfull : (item.put m).received = m.fragCount.toNat
    · right
      obtain ⟨ms, hms, hpacket⟩ := hput.full (hfull.trans hputlen.symm)
      refine ⟨ms, hms, hpacket, ?_⟩
      obtain ⟨first, rest, rfl⟩ : ∃ first rest, ms = first :: rest := by
        apply exists_cons_of_ne_nil
        rintro rfl
        simp [hms] at hputlen
        omega
      have hfirst : first.packetId = m.packetId := (hpacket 0 first rfl).2.1
      have hjoin : reassemble (item.put m) = joinFragments (first :: rest) := by
        rw [reassemble, hms, mapM_id_map_some]
      rw [if_neg (not_not.mpr hfull)]
      simp only [deliver, hms, map_cons, getElem?_cons_zero,
        join_some, hfirst, insert_packets_self, hjoin]
    · left
      rw [if_pos hfull]
      rw [hput.count, ← hputlen, countP_eq_length] at hfull
      obtain ⟨slot, hmem, hslot⟩ := not_forall₂.mp hfull
      exact ⟨not_isSome_iff_eq_none.mp hslot ▸ hmem, rfl⟩

/-- A packet that was put together has the number of its fragments. -/
lemma joinFragments_packetId {ms} (hpacket : IsPacket S k ms) (h : joinFragments ms = .ok m) :
    m.packetId = k := by
  cases ms with
  | nil => cases h
  | cons first rest =>
    simp only [joinFragments] at h
    split_ifs at h
    rw [← Except.ok.inj h]
    exact (hpacket 0 first rfl).2.1

/-- What a message yields: nothing yet, itself, or a packet of fragments that have arrived. -/
inductive Yields (S : Set UdpMessage) (m : UdpMessage) : Except Error (Option UdpMessage) → Prop
  | nothing : Yields S m (.ok none)
  | itself (h : m.fragCount ≤ 1) : Yields S m (.ok (some m))
  | packet {ms : List UdpMessage} (h : IsPacket S m.packetId ms) :
    Yields S m ((joinFragments ms).map some)

/-- **Everything that a message does**: what it yields, that the table stays sound, and that the
entries of other packets are only evicted. -/
theorem feed_spec (hd : d.Sound S) {a : Arrival} (ha : a.message ∈ S) :
    Yields S a.message (d.feed a).1 ∧ (d.feed a).2.Sound S ∧
      ∀ k ≠ a.message.packetId, (d.feed a).2.packets k = (d.evictStale a.now).packets k := by
  have hevict := hd.evictStale a.now
  rw [UdpDefragger.feed]
  split_ifs with hone hbad
  · exact ⟨.itself hone, hevict, fun _ _ => rfl⟩
  · exact ⟨.nothing, hevict, fun _ _ => rfl⟩
  · rcases store_cases hevict ha (UInt8.not_le.mp hbad) a.created with
      ⟨-, hstore⟩ | ⟨-, hput, ⟨-, hstore⟩ | ⟨ms, -, hpacket, hstore⟩⟩ <;> rw [hstore]
    · exact ⟨.nothing, hevict.insert (hevict.entry _ _), fun k hk => insert_packets_of_ne _ hk _⟩
    · exact ⟨.nothing, hevict.insert hput, fun k hk => insert_packets_of_ne _ hk _⟩
    · refine ⟨.packet hpacket, (hevict.insert hput).remove _, fun k hk => ?_⟩
      rw [remove_packets_of_ne _ hk, insert_packets_of_ne _ hk]

/-- A delivered packet has the number of the message that completed it. -/
lemma Yields.packetId {m' : UdpMessage} {r} (h : Yields S m r) (hr : r = .ok (some m')) :
    m'.packetId = m.packetId := by
  cases h with
  | nothing => cases hr
  | itself _ =>
    rw [← some.inj (Except.ok.inj hr)]
  | @packet ms hpacket =>
    cases hjoin : joinFragments ms <;> rw [hjoin] at hr <;> cases hr
    exact joinFragments_packetId hpacket hjoin

/-- **A run yields whole messages and whole packets.** Each result comes from the message fed with
it or from one fragment for each number of its packet, all of them messages of the run. -/
theorem feedAll_spec (hd : d.Sound S) {as} (has : ∀ a ∈ as, a.message ∈ S) :
    (d.feedAll as).2.Sound S ∧
      ∀ r ∈ (d.feedAll as).1, ∃ a ∈ as, Yields S a.message r := by
  induction as generalizing d with
  | nil => exact ⟨hd, fun r hr => absurd hr not_mem_nil⟩
  | cons a as ih =>
    obtain ⟨hyields, hsound, -⟩ := feed_spec hd (has a mem_cons_self)
    obtain ⟨hsound', hrest⟩ := ih hsound fun b hb => has b (mem_cons_of_mem a hb)
    refine ⟨hsound', forall_mem_cons.mpr ⟨⟨a, mem_cons_self, hyields⟩, fun r hr => ?_⟩⟩
    obtain ⟨b, hb, hyields'⟩ := hrest r hr
    exact ⟨b, mem_cons_of_mem a hb, hyields'⟩

end Sound

lemma UdpDefragger.sound_new (S : Set UdpMessage) : UdpDefragger.new.Sound S := nofun

/-! ### The fragments of one packet -/

/-- The table when the fragments `seen` have arrived. -/
def slots (frags seen : List UdpMessage) : List (Option UdpMessage) :=
  frags.map fun f => if f ∈ seen then some f else none

/-- The entry of `pid` holds what has been seen of the packet, and stays until the arrivals to come
have been fed. -/
def Tracks (pid : UInt16) (frags seen : List UdpMessage) (future : List Arrival)
    (d : UdpDefragger) : Prop :=
  (seen = [] ∧ d.packets pid = none) ∨
    ∃ item, d.packets pid = some item ∧ item.fragments = slots frags seen ∧
      ∀ b ∈ future, b.now - item.created ≤ FRAGMENT_TTL

section Own

variable {S : Set UdpMessage} {pid : UInt16} {frags seen : List UdpMessage}
  {future : List Arrival} {d : UdpDefragger} {a : Arrival}

lemma slots_congr {seen'} (h : ∀ f ∈ frags, f ∈ seen ↔ f ∈ seen') :
    slots frags seen = slots frags seen' := by
  apply map_congr_left
  intro f hf
  simp only [h f hf]

lemma slots_all (h : ∀ f ∈ frags, f ∈ seen) : slots frags seen = frags.map some := by
  apply map_congr_left
  intro f hf
  rw [if_pos (h f hf)]

variable {m : UdpMessage}

/-- A fragment stands at its number. -/
lemma IsPacket.getElem? (hp : IsPacket S pid frags) (hm : m ∈ frags) :
    frags[m.fragId.toNat]? = some m := by
  obtain ⟨i, hi, hget⟩ := getElem_of_mem hm
  have hsome : frags[i]? = some m := by rw [getElem?_eq_getElem hi, hget]
  rwa [(hp i m hsome).2.2.1]

/-- Putting a fragment into the table. -/
lemma set_slots (hp : IsPacket S pid frags) (hm : m ∈ frags) :
    (slots frags seen).set m.fragId.toNat (some m) = slots frags (m :: seen) := by
  apply ext_getElem?
  intro j
  have hm' := hp.getElem? hm
  rw [getElem?_set]
  simp only [slots, length_map, getElem?_map]
  by_cases hj : m.fragId.toNat = j
  · subst hj
    have hlt : m.fragId.toNat < frags.length := (List.getElem?_eq_some_iff.mp hm').1
    rw [if_pos hlt, hm']
    simp
  · rw [if_neg hj]
    cases hf : frags[j]? with
    | none => rfl
    | some f =>
      have hne : f ≠ m := by
        rintro rfl
        exact hj (hp j f hf).2.2.1
      simp [hne]

lemma Tracks.evictStale (h : Tracks pid frags seen (a :: future) d) :
    Tracks pid frags seen future (d.evictStale a.now) := by
  rcases h with ⟨hseen, hnone⟩ | ⟨item, hitem, hslots, hage⟩
  · exact .inl ⟨hseen, by simp [UdpDefragger.evictStale, hnone]⟩
  · exact .inr ⟨item, by simpa [UdpDefragger.evictStale, hitem] using hage a mem_cons_self,
      hslots, fun b hb => hage b (mem_cons_of_mem a hb)⟩

/-- The entry that a fragment of the packet finds. -/
lemma Tracks.entry (h : Tracks pid frags seen future d) (created : ℕ)
    (htime : ∀ b ∈ future, b.now - created ≤ FRAGMENT_TTL) :
    (d.entry pid created frags.length).fragments = slots frags seen ∧
      ∀ b ∈ future, b.now - (d.entry pid created frags.length).created ≤ FRAGMENT_TTL := by
  rcases h with ⟨rfl, hnone⟩ | ⟨item, hitem, hslots, hage⟩
  · rw [entry, hnone]
    exact ⟨by simp [slots, map_const', FragmentPacket.new], htime⟩
  · have hlen : item.fragments.length = frags.length := by rw [hslots, slots, length_map]
    simp only [UdpDefragger.entry, hitem, hlen, ne_eq, not_true, if_false]
    exact ⟨hslots, hage⟩

/-- A message of another packet leaves the entry as it is and delivers nothing of the packet. -/
lemma Tracks.feed_other (hd : d.Sound S) (ha : a.message ∈ S)
    (h : Tracks pid frags seen (a :: future) d) (hother : a.message.packetId ≠ pid) :
    Tracks pid frags seen future (d.feed a).2 ∧
      ∀ m, (d.feed a).1 = .ok (some m) → m.packetId ≠ pid := by
  obtain ⟨hyields, -, hframe⟩ := feed_spec hd ha
  refine ⟨?_, fun m hm => hyields.packetId hm ▸ hother⟩
  have hsame := hframe pid (Ne.symm hother)
  rcases h.evictStale with ⟨hseen, hnone⟩ | ⟨item, hitem, hslots, hage⟩
  · exact .inl ⟨hseen, hsame.trans hnone⟩
  · exact .inr ⟨item, hsame.trans hitem, hslots, hage⟩

/-- A fragment of a packet with several goes to the table. -/
lemma feed_eq_store (hp : IsPacket S pid frags) (hmany : 2 ≤ frags.length)
    (hown : a.message ∈ frags) :
    (d.feed a) = (d.evictStale a.now).store a.created a.message ∧
      a.message.fragId < a.message.fragCount ∧ a.message.fragCount.toNat = frags.length ∧
      a.message.packetId = pid := by
  have hget := hp.getElem? hown
  obtain ⟨-, hpid, -, hcount⟩ := hp _ _ hget
  have hlt : a.message.fragId < a.message.fragCount := by
    rw [lt_iff_toNat_lt, hcount]
    exact (List.getElem?_eq_some_iff.mp hget).1
  have hone : ¬ a.message.fragCount ≤ 1 := by
    rw [le_iff_toNat_le, hcount]
    exact not_le.mpr hmany
  refine ⟨?_, hlt, hcount, hpid⟩
  rw [UdpDefragger.feed, if_neg hone, if_neg (UInt8.not_le.mpr hlt)]

/-- **A fragment of the packet** is noted while another one is missing, and the last one delivers
the packet. -/
lemma Tracks.feed_own (hd : d.Sound S) (hp : IsPacket S pid frags) (hmany : 2 ≤ frags.length)
    (hown : a.message ∈ frags) (h : Tracks pid frags seen (a :: future) d)
    (htime : ∀ b ∈ future, b.now - a.created ≤ FRAGMENT_TTL) :
    ((∃ f ∈ frags, f ∉ a.message :: seen) →
      (d.feed a).1 = .ok none ∧ Tracks pid frags (a.message :: seen) future (d.feed a).2) ∧
    (a.message ∉ seen → (∀ f ∈ frags, f ∈ a.message :: seen) →
      (d.feed a).1 = (joinFragments frags).map some) := by
  obtain ⟨hfeed, hlt, hcount, rfl⟩ := feed_eq_store (d := d) hp hmany hown
  obtain ⟨hslots, hage⟩ := h.evictStale.entry a.created htime
  have hput : ((d.evictStale a.now).entry a.message.packetId a.created frags.length
      |>.put a.message).fragments = slots frags (a.message :: seen) := by
    show set _ _ _ = _
    rw [hslots, set_slots hp hown]
  rw [hfeed]
  have hcases := store_cases (hd.evictStale a.now) (hp _ _ (hp.getElem? hown)).1 hlt a.created
  simp only [hcount] at hcases
  rcases hcases with ⟨⟨m', htaken⟩, hstore⟩ | ⟨-, -, ⟨hnone, hstore⟩ | ⟨ms, hms, -, hstore⟩⟩
  · -- a duplicate: its slot is taken, so it has been seen
    rw [hslots, slots, getElem?_map, hp.getElem? hown] at htaken
    rw [hstore]
    refine ⟨fun _ => ⟨rfl, .inr ⟨_, insert_packets_self _ _ _, ?_, hage⟩⟩, fun hnew => ?_⟩
    · rw [hslots]
      exact slots_congr (by grind)
    · simp [hnew] at htaken
  · rw [hstore]
    refine ⟨fun _ => ⟨rfl, .inr ⟨_, insert_packets_self _ _ _, hput, hage⟩⟩, fun _ hall => ?_⟩
    rw [hput, slots_all hall] at hnone
    simp at hnone
  · rw [hput] at hms
    refine ⟨fun ⟨f, hf, hnot⟩ => ?_, fun _ hall => ?_⟩
    · -- the table is not full: the missing fragment has an empty slot
      have hnone : none ∈ slots frags (a.message :: seen) := List.mem_map.mpr ⟨f, hf, if_neg hnot⟩
      rw [hms] at hnone
      simp at hnone
    · rw [slots_all hall] at hms
      obtain rfl := map_injective_iff.mpr (some_injective _) hms
      rw [hstore]

/-- Nothing of the packet is delivered. -/
def DeliversNone (pid : UInt16) (results : List (Except Error (Option UdpMessage))) : Prop :=
  ∀ r ∈ results, ∀ m, r = .ok (some m) → m.packetId ≠ pid

/-- Messages of other packets deliver nothing of the packet. -/
lemma deliversNone_others (hd : d.Sound S) {as} (has : ∀ a ∈ as, a.message ∈ S)
    (hothers : ∀ a ∈ as, a.message.packetId ≠ pid) : DeliversNone pid (d.feedAll as).1 := by
  intro r hr m hm
  obtain ⟨a, ha, hyields⟩ := (feedAll_spec hd has).2 r hr
  exact hyields.packetId hm ▸ hothers a ha

/-- A later arrival comes in time for what an earlier fragment of the packet has entered. -/
def InTime (pid : UInt16) (a b : Arrival) : Prop :=
  a.message.packetId = pid → b.now - a.created ≤ FRAGMENT_TTL

instance (pid : UInt16) (a b : Arrival) : Decidable (InTime pid a b) :=
  inferInstanceAs (Decidable (_ → _))

/-- **The fragments before the last one** are noted, whatever comes between them, and nothing of
the packet is delivered.

**Proof sketch.** Induction on the arrivals: a message of another packet leaves the entry alone,
a fragment is added to those seen. The missing fragment keeps the table from being full. -/
lemma Tracks.feedAll (hd : d.Sound S) (hp : IsPacket S pid frags) (hmany : 2 ≤ frags.length)
    {missing} (hmissing : missing ∈ frags) {pre} (hS : ∀ a ∈ pre, a.message ∈ S)
    (hown : ∀ a ∈ pre, a.message.packetId = pid → a.message ∈ frags)
    (hpre : ∀ a ∈ pre, a.message ≠ missing) (hseen : missing ∉ seen)
    (htime : (pre ++ future).Pairwise (InTime pid)) (h : Tracks pid frags seen (pre ++ future) d) :
    DeliversNone pid (d.feedAll pre).1 ∧ ∃ seen',
      Tracks pid frags seen' future (d.feedAll pre).2 ∧ missing ∉ seen' ∧ seen ⊆ seen' ∧
        ∀ a ∈ pre, a.message.packetId = pid → a.message ∈ seen' := by
  induction pre generalizing d seen with
  | nil => exact ⟨fun r hr => absurd hr not_mem_nil, seen, h, hseen, fun _ hf => hf,
      fun a ha => absurd ha not_mem_nil⟩
  | cons a pre ih =>
    obtain ⟨hfirst, hlater⟩ := pairwise_cons.mp htime
    have hsound := (feed_spec hd (hS a mem_cons_self)).2.1
    have hrest := fun seen hseen h => @ih seen (d.feed a).2 hsound
      (fun b hb => hS b (mem_cons_of_mem a hb))
      (fun b hb => hown b (mem_cons_of_mem a hb))
      (fun b hb => hpre b (mem_cons_of_mem a hb)) hseen hlater h
    by_cases hpid : a.message.packetId = pid
    · have hmem := hown a mem_cons_self hpid
      have hstill : missing ∉ a.message :: seen :=
        not_mem_cons_of_ne_of_not_mem (hpre a mem_cons_self).symm hseen
      obtain ⟨hnone, htracks⟩ := (h.feed_own hd hp hmany hmem
        fun b hb => hfirst b hb hpid).1 ⟨missing, hmissing, hstill⟩
      obtain ⟨hdel, seen', htracks', hmiss, hsub, hall⟩ := hrest _ hstill htracks
      exact ⟨forall_mem_cons.mpr ⟨by simp [hnone], hdel⟩, seen', htracks', hmiss,
        fun f hf => hsub (mem_cons_of_mem _ hf),
        forall_mem_cons.mpr ⟨fun _ => hsub mem_cons_self, hall⟩⟩
    · obtain ⟨htracks, hother⟩ := h.feed_other hd (hS a mem_cons_self) hpid
      obtain ⟨hdel, seen', htracks', hmiss, hsub, hall⟩ := hrest _ hseen htracks
      exact ⟨forall_mem_cons.mpr ⟨hother, hdel⟩, seen', htracks', hmiss, hsub,
        forall_mem_cons.mpr ⟨fun hb => absurd hb hpid, hall⟩⟩

/-- The fragments `frags` of the packet `pid` arrive at `d`: those in `pre` in any order, any
number of times and among messages of other packets, `last` as the first arrival of the one still
missing; afterwards come messages of other packets. No incomplete packet of that number is kept
from before, and up to `last` every arrival is in time. -/
structure Interleaved (pid : UInt16) (frags : List UdpMessage) (d : UdpDefragger)
    (pre : List Arrival) (last : Arrival) (post : List Arrival) : Prop where
  fresh : ∀ a ∈ (pre ++ [last]).head?, (d.evictStale a.now).packets pid = none
  own : ∀ a ∈ pre, a.message.packetId = pid → a.message ∈ frags
  last_mem : last.message ∈ frags
  missing : ∀ a ∈ pre, a.message ≠ last.message
  complete : ∀ f ∈ frags, f ≠ last.message → ∃ a ∈ pre, a.message = f
  after : ∀ a ∈ post, a.message.packetId ≠ pid
  timely : (pre ++ [last]).Pairwise (InTime pid)

/-- Feeding begins with an eviction. -/
lemma UdpDefragger.feedAll_evictStale (d : UdpDefragger) (a : Arrival) (as : List Arrival) :
    (d.evictStale a.now).feedAll (a :: as) = d.feedAll (a :: as) := by
  simp only [feedAll, feed, evictStale_evictStale]

variable {pre post : List Arrival} {last : Arrival}

/-- A run that delivers nothing of the packet but with `last`. -/
lemma feedAll_around {result} (hd : d.Sound S) (hS : ∀ a ∈ pre ++ last :: post, a.message ∈ S)
    (hpre : DeliversNone pid (d.feedAll pre).1) (hlast : ((d.feedAll pre).2.feed last).1 = result)
    (hpost : ∀ a ∈ post, a.message.packetId ≠ pid) :
    ∃ before after, (d.feedAll (pre ++ last :: post)).1 = before ++ result :: after ∧
      before.length = pre.length ∧ DeliversNone pid (before ++ after) := by
  have hsound := (feedAll_spec hd fun a ha => hS a (mem_append_left _ ha)).1
  have hSlast : last.message ∈ S := hS last (by simp)
  have hafter := deliversNone_others (feed_spec hsound hSlast).2.1
    (fun a ha => hS a (by simp [ha])) hpost
  refine ⟨(d.feedAll pre).1, (((d.feedAll pre).2.feed last).2.feedAll post).1, ?_,
    d.length_feedAll pre, forall_mem_append.mpr ⟨hpre, hafter⟩⟩
  rw [feedAll_append, ← hlast]
  rfl

/-- **A packet with several fragments is delivered once**, with the fragment that completes it. -/
lemma Interleaved.delivers (hd : d.Sound S) (hp : IsPacket S pid frags) (hmany : 2 ≤ frags.length)
    (hS : ∀ a ∈ pre ++ last :: post, a.message ∈ S) (h : Interleaved pid frags d pre last post) :
    ∃ before after, (d.feedAll (pre ++ last :: post)).1 =
        before ++ (joinFragments frags).map some :: after ∧
      before.length = pre.length ∧ DeliversNone pid (before ++ after) := by
  -- start where the first arrival has evicted what was too old
  obtain ⟨d, hd, hfresh, hfeed⟩ : ∃ d' : UdpDefragger, d'.Sound S ∧ d'.packets pid = none ∧
      d.feedAll (pre ++ last :: post) = d'.feedAll (pre ++ last :: post) := by
    cases pre with
    | nil => exact ⟨_, hd.evictStale last.now, h.fresh last rfl,
        (d.feedAll_evictStale last post).symm⟩
    | cons a pre => exact ⟨_, hd.evictStale a.now, h.fresh a rfl,
        (d.feedAll_evictStale a (pre ++ last :: post)).symm⟩
  have hSpre : ∀ a ∈ pre, a.message ∈ S := fun a ha => hS a (mem_append_left _ ha)
  have hstart : Tracks pid frags [] (pre ++ [last]) d := .inl ⟨rfl, hfresh⟩
  obtain ⟨hdel, seen, htracks, hmiss, -, hall⟩ := hstart.feedAll hd hp hmany
    h.last_mem hSpre h.own h.missing not_mem_nil h.timely
  have hsound := (feedAll_spec hd hSpre).1
  have hseen : ∀ f ∈ frags, f ∈ last.message :: seen := by
    intro f hf
    by_cases hlast : f = last.message
    · exact hlast ▸ mem_cons_self
    · obtain ⟨a, ha, rfl⟩ := h.complete f hf hlast
      exact mem_cons_of_mem _ (hall a ha (hp _ _ (hp.getElem? hf)).2.1)
  have hlast := (htracks.feed_own hsound hp hmany h.last_mem nofun).2 hmiss hseen
  rw [hfeed]
  exact feedAll_around hd hS hdel hlast h.after

/-- A packet of one message is delivered when it arrives. -/
lemma Interleaved.delivers_one (hd : d.Sound S) (hm : m.fragCount ≤ 1)
    (hS : ∀ a ∈ pre ++ last :: post, a.message ∈ S) (h : Interleaved pid [m] d pre last post) :
    ∃ before after, (d.feedAll (pre ++ last :: post)).1 = before ++ .ok (some m) :: after ∧
      before.length = pre.length ∧ DeliversNone pid (before ++ after) := by
  have hlast : last.message = m := mem_singleton.mp h.last_mem
  have hSpre : ∀ a ∈ pre, a.message ∈ S := fun a ha => hS a (mem_append_left _ ha)
  have hothers : ∀ a ∈ pre, a.message.packetId ≠ pid := by
    intro a ha hpid
    exact h.missing a ha ((mem_singleton.mp (h.own a ha hpid)).trans hlast.symm)
  have hfeed : ((d.feedAll pre).2.feed last).1 = .ok (some m) := by
    rw [UdpDefragger.feed, hlast, if_pos hm]
  exact feedAll_around hd hS (deliversNone_others hd hSpre hothers) hfeed h.after

end Own

/-! ### A packet that was sent -/

/-- The message of a datagram that arrives; a malformed one is dropped. -/
def receive (bytes : List UInt8) : Option UdpMessage := (decodeUdpMessage bytes).toOption

section Sent

variable {sessionId : UInt32} {packetId : UInt16} {addr : Str} {data : List UInt8} {limit : ℕ}
  {m : UdpMessage}

/-- Each message of a packet carries its numbers and address, and at most `limit` bytes of it. -/
lemma of_mem_packetMessages (hlimit : 0 < limit)
    (h : m ∈ packetMessages sessionId packetId addr data limit) :
    (m.sessionId = sessionId ∧ m.packetId = packetId ∧ m.addr = addr) ∧
      m.data.length ≤ limit ∧ m.data.length ≤ data.length := by
  simp only [packetMessages] at h
  split_ifs at h with hfits hmany
  · obtain rfl := mem_singleton.mp h
    exact ⟨⟨rfl, rfl, rfl⟩, hfits, le_rfl⟩
  · exact absurd h not_mem_nil
  · obtain ⟨i, hi, rfl⟩ := mem_mapIdx.mp h
    have hmem := getElem_mem hi
    refine ⟨⟨rfl, rfl, rfl⟩, length_le_of_mem_chunks hmem, ?_⟩
    have hle := (infix_of_mem_flatten hmem).length_le
    rwa [flatten_chunks hlimit] at hle

/-- The messages of a packet that does not fit one datagram: at least two, numbered, and the
packet when they are put together. -/
lemma packetMessages_spec (sessionId : UInt32) (packetId : UInt16) (addr : Str)
    (hlimit : 0 < limit) (hlong : limit < data.length) (hcount : divCeil data.length limit ≤ 255)
    (hdata : data.length ≤ MAX_UDP_SIZE) :
    let frags := packetMessages sessionId packetId addr data limit
    2 ≤ frags.length ∧ IsPacket {m | m ∈ frags} packetId frags ∧
      joinFragments frags =
        .ok { sessionId, packetId, fragId := 0, fragCount := 1, addr, data } := by
  intro frags
  have hfrags : frags = (chunks limit data).mapIdx fun i chunk =>
      { sessionId, packetId, fragId := ofNat i
        fragCount := ofNat (divCeil data.length limit), addr, data := chunk } := by
    show packetMessages sessionId packetId addr data limit = _
    rw [packetMessages, if_neg (not_le.mpr hlong)]
    rw [if_neg (not_lt.mpr hcount)]
  have hlen : frags.length = divCeil data.length limit := by
    rw [hfrags, length_mapIdx, length_chunks]
  have htwo : 2 ≤ frags.length := by
    rw [hlen, divCeil, Nat.le_div_iff_mul_le hlimit]
    omega
  refine ⟨htwo, fun i m hi => ?_, ?_⟩
  · have hmem : m ∈ frags := mem_of_getElem? hi
    have hilt : i < frags.length := (List.getElem?_eq_some_iff.mp hi).1
    rw [hfrags, getElem?_mapIdx] at hi
    obtain ⟨chunk, -, rfl⟩ := map_eq_some_iff.mp hi
    refine ⟨hmem, rfl, ?_, ?_⟩
    · show (ofNat i).toNat = i
      rw [toNat_ofNat', Nat.mod_eq_of_lt (by omega)]
    · show (ofNat (divCeil data.length limit)).toNat = frags.length
      rw [toNat_ofNat', hlen, Nat.mod_eq_of_lt (by omega)]
  · have hjoined : frags.flatMap UdpMessage.data = data := by
      have hchunks : frags.map UdpMessage.data = chunks limit data := by
        apply ext_getElem?
        intro i
        rw [hfrags, getElem?_map, getElem?_mapIdx, Option.map_map]
        exact map_id'
      rw [flatMap_def, hchunks, flatten_chunks hlimit]
    obtain ⟨first, rest, hcons⟩ := exists_cons_of_length_pos (l := frags) (by omega)
    have hfirst := (of_mem_packetMessages hlimit (show first ∈ frags by simp [hcons])).1
    rw [hcons] at hjoined ⊢
    simp only [joinFragments, hjoined, hfirst]
    rw [if_neg (not_lt.mpr hdata)]

/-- Every message of the packet is encoded in a datagram that fits and is received. -/
lemma sendOneUdp_spec {header} (haddr : udpHeaderLen addr = .ok header) (hlimit : 0 < limit)
    (hdata : data.length ≤ MAX_UDP_SIZE)
    (h : m ∈ packetMessages sessionId packetId addr data limit) :
    ∃ bytes, sendOneUdp m = some bytes ∧ bytes.length ≤ header + limit ∧
      receive bytes = some m := by
  obtain ⟨⟨-, -, haddr'⟩, hfits, hle⟩ := of_mem_packetMessages hlimit h
  obtain ⟨bytes, henc, hlen, hdec⟩ := encodeUdpMessage_spec (haddr' ▸ haddr) (hle.trans hdata)
  refine ⟨bytes, ?_, ?_, ?_⟩
  · rw [sendOneUdp, henc]
    rfl
  · omega
  · rw [receive, hdec]
    rfl

/-- The datagrams of a list of messages that are all encoded and received. -/
lemma receive_sendOneUdp {msgs : List UdpMessage} {max}
    (h : ∀ m ∈ msgs, ∃ bytes, sendOneUdp m = some bytes ∧ bytes.length ≤ max ∧
      receive bytes = some m) :
    (∀ bytes ∈ msgs.filterMap sendOneUdp, bytes.length ≤ max ∧ (receive bytes).isSome) ∧
      (msgs.filterMap sendOneUdp).filterMap receive = msgs := by
  induction msgs with
  | nil => exact ⟨fun bytes hb => absurd hb not_mem_nil, rfl⟩
  | cons m msgs ih =>
    obtain ⟨bytes, hsend, hlen, hrec⟩ := h m mem_cons_self
    obtain ⟨hlens, hrecs⟩ := ih fun m' hm' => h m' (mem_cons_of_mem m hm')
    rw [filterMap_cons_some hsend]
    refine ⟨forall_mem_cons.mpr ⟨⟨hlen, by rw [hrec]; rfl⟩, hlens⟩, ?_⟩
    rw [filterMap_cons_some hrec, hrecs]

end Sent

/-- **A packet that was sent is delivered once and unmixed.** Let a packet of at most 4096 bytes be
sent to `addr`, over datagrams of `max` bytes that leave room for some payload and need at most
255 of them. Every datagram fits, and every one is received. When the fragments then arrive at a
receiver in any state it can be in, in any order, with duplicates before the last of them and
among messages of other packets, and in time, the packet is delivered with the last fragment, with
its address, and no other result has its number. Whatever any run delivers is a message of that
run or put together from one fragment for each number of one packet.

**Proof sketch.** A packet that fits one datagram is one message and passes through. Otherwise the
fragments are numbered from 0 to their count, the table of the packet holds exactly those seen,
and the last one fills it (`Interleaved.delivers`). -/
theorem sendUdp_reassembled {nextPacketId : UInt16} {max : ℕ} {sessionId : UInt32} {addr : Str}
    {data : List UInt8} {header : ℕ} (hdata : data.length ≤ MAX_UDP_SIZE)
    (haddr : udpHeaderLen addr = .ok header) (hlimit : header < max)
    (hcount : divCeil data.length (max - header) ≤ 255) {history pre post : List Arrival}
    {last : Arrival}
    (hin : Interleaved nextPacketId
      ((sendUdp nextPacketId (some max) sessionId addr data).2.filterMap receive)
      (UdpDefragger.new.feedAll history).2 pre last post) :
    (∀ bytes ∈ (sendUdp nextPacketId (some max) sessionId addr data).2,
      bytes.length ≤ max ∧ (receive bytes).isSome) ∧
    (∃ before after,
      ((UdpDefragger.new.feedAll history).2.feedAll (pre ++ last :: post)).1 = before ++
        .ok (some { sessionId, packetId := nextPacketId, fragId := 0, fragCount := 1, addr, data })
          :: after ∧
      before.length = pre.length ∧ DeliversNone nextPacketId (before ++ after)) ∧
    ∀ (arrivals : List Arrival), ∀ r ∈ (UdpDefragger.new.feedAll arrivals).1, ∃ a ∈ arrivals,
      Yields {m | ∃ b ∈ arrivals, b.message = m} a.message r := by
  have hpos : 0 < max - header := by omega
  have hsend : (sendUdp nextPacketId (some max) sessionId addr data).2 =
      (packetMessages sessionId nextPacketId addr data (max - header)).filterMap sendOneUdp := by
    rw [sendUdp, haddr]
    simp only [getD_some]
    rw [if_neg (by omega)]
  have hmax : header + (max - header) = max := by omega
  obtain ⟨hlens, hrecs⟩ := receive_sendOneUdp fun m hm =>
    hmax ▸ sendOneUdp_spec haddr hpos hdata hm
  rw [← hsend] at hlens hrecs
  rw [hrecs] at hin
  refine ⟨hlens, ?_, ?_⟩
  · have hsound : ∀ S : Set UdpMessage, (∀ a ∈ history, a.message ∈ S) →
        (new.feedAll history).2.Sound S :=
      fun S hS => (feedAll_spec (sound_new S) hS).1
    by_cases hfits : data.length ≤ max - header
    · rw [packetMessages, if_pos hfits] at hin
      exact hin.delivers_one (hsound Set.univ fun _ _ => trivial) (le_refl 1)
        fun _ _ => trivial
    · obtain ⟨htwo, hpacket, hjoin⟩ := packetMessages_spec sessionId nextPacketId addr hpos
        (not_le.mp hfits) hcount hdata
      have huniv : IsPacket Set.univ nextPacketId
          (packetMessages sessionId nextPacketId addr data (max - header)) :=
        fun i m hi => ⟨trivial, (hpacket i m hi).2⟩
      have hdel := hin.delivers (hsound Set.univ fun _ _ => trivial) huniv htwo fun _ _ => trivial
      rw [hjoin] at hdel
      exact hdel
  · intro arrivals r hr
    have hfed : ∀ a ∈ arrivals, a.message ∈ {m | ∃ b ∈ arrivals, b.message = m} :=
      fun a ha => ⟨a, ha, rfl⟩
    exact (feedAll_spec (sound_new _) hfed).2 r hr

/-- The fragments of a packet of three bytes over datagrams with room for one. -/
def sampleFragment (i : UInt8) : UdpMessage :=
  { sessionId := 7, packetId := 5, fragId := i, fragCount := 3, addr := str "a", data := [i + 1] }

/-- A message of another packet with two fragments. -/
def sampleOther (i : UInt8) : UdpMessage :=
  { sessionId := 7, packetId := 9, fragId := i, fragCount := 2, addr := str "b", data := [i] }

/-- The fragments arrive out of order and with a duplicate, among those of another packet. -/
theorem sample_reassembled :
    ∃ before after,
      (UdpDefragger.new.feedAll
        ([⟨0, 1, sampleFragment 2⟩, ⟨2, 3, sampleOther 0⟩, ⟨4, 5, sampleFragment 0⟩,
          ⟨6, 7, sampleFragment 2⟩] ++ ⟨FRAGMENT_TTL + 1, FRAGMENT_TTL + 2, sampleFragment 1⟩ ::
          [⟨FRAGMENT_TTL + 3, FRAGMENT_TTL + 4, sampleOther 1⟩])).1 =
        before ++ .ok (some ⟨7, 5, 0, 1, str "a", [1, 2, 3]⟩) :: after ∧
      before.length = 4 ∧ DeliversNone 5 (before ++ after) := by
  have hin : Interleaved 5 ((sendUdp 5 (some 11) 7 (str "a") [1, 2, 3]).2.filterMap receive)
      (new.feedAll []).2
      [⟨0, 1, sampleFragment 2⟩, ⟨2, 3, sampleOther 0⟩, ⟨4, 5, sampleFragment 0⟩,
        ⟨6, 7, sampleFragment 2⟩] ⟨FRAGMENT_TTL + 1, FRAGMENT_TTL + 2, sampleFragment 1⟩
      [⟨FRAGMENT_TTL + 3, FRAGMENT_TTL + 4, sampleOther 1⟩] := by
    exact
      { fresh := fun _ _ => rfl
        own := by decide
        last_mem := by decide
        missing := by decide
        complete := by decide
        after := by decide
        timely := by decide }
  have haddr : udpHeaderLen (str "a") = .ok 10 := rfl
  exact (sendUdp_reassembled (by decide) haddr (by decide) (by decide) hin).2.1

end Meow.Hysteria2
