import Meow.Dns.FakeIp.Store

/-!
# The fake-IP pool

In fake-IP mode the DNS server answers with addresses of a reserved range, one for each host, so
that a later connection to such an address can be traced back to its host (`fakeip.rs`). A pool
hands out the addresses of its range in turn, starting again when it reaches the end, where it
takes each address from the host that has it.

The background task of a file store may run in the middle of an operation, so that a restart may
find a table from the middle of an allocation.

## Main definitions

* `Pool`, `Pool.new`, `Pool.lookup`, `Pool.lookBack`, `Pool.flush` — the pool.
* `PoolOp`, `Pool.run` — a series of operations, with restarts.

## Main results

* `PoolInv.allocate` — an allocation gives a free address of the range.
* `PoolInv.step` — each operation keeps the two directions inverse.
* `pool_run_inverse` — they are inverse after every run.
-/

namespace Meow.Dns

open LruCache Nat Store

/-! ### Addresses -/

def nextAddr : IpAddr → IpAddr
  | .v4 n => .v4 (n + 1)
  | .v6 n => .v6 (n + 1)

def prevAddr : IpAddr → IpAddr
  | .v4 n => .v4 (n - 1)
  | .v6 n => .v6 (n - 1)

/-- `addr_less`: addresses of different families are not compared. -/
def addrLess : IpAddr → IpAddr → Bool
  | .v4 a, .v4 b => a < b
  | .v6 a, .v6 b => a < b
  | _, _ => false

def containedInRange (ip first last : IpAddr) : Bool := !addrLess ip first && addrLess ip last

inductive PoolError where
  | prefixTooSmall (net : IpNet)
  | invalidPrefix (net : IpNet)

/-- `anchor_addrs`: the gateway, the first address to hand out, and the last address of the
network. -/
def anchorAddrs (net : IpNet) : Except PoolError (IpAddr × IpAddr × IpAddr) :=
  let network := net.network
  let last := net.broadcast
  let gateway := nextAddr network
  let first := nextAddr (nextAddr (nextAddr gateway))
  if !addrLess first last then .error (.prefixTooSmall net)
  else if network.isIpv4 != last.isIpv4 || network.isIpv4 != gateway.isIpv4 ||
      network.isIpv4 != first.isIpv4 then .error (.invalidPrefix net)
  else .ok (gateway, first, last)

/-! ### The pool -/

/-- `Pool`: `offset` is the address handed out last, and `cycle` says that the range has been
used up at least once. -/
structure Pool (C : Type → Type → Type) (json : Json) where
  ipnet : IpNet
  gateway : IpAddr
  first : IpAddr
  last : IpAddr
  offset : IpAddr
  cycle : Bool
  store : Store C json

/-- Where in an operation the background task of a file store runs, and whether its write
succeeds. -/
structure Saves where
  afterDel : Option Bool
  afterPut : Option Bool

namespace Pool

variable {C : Type → Type → Type} [LruCache C] {json : Json}

/-- `Pool::new`: a stored cursor outside the range is not used. -/
def new (net : IpNet) (store : Store C json) : Except PoolError (Pool C json) :=
  match anchorAddrs net with
  | .error e => .error e
  | .ok (gateway, first, last) =>
    let (offset, cycle) := match store.getState with
      | some (storedOffset, storedCycle) =>
        if containedInRange storedOffset first last then (storedOffset, storedCycle)
        else (prevAddr first, false)
      | none => (prevAddr first, false)
    .ok ⟨net, gateway, first, last, offset, cycle, store⟩

/-- A round of the background task, if it runs here. -/
def save (store : Store C json) : Option Bool → Store C json
  | none => store
  | some ok => store.persist ok

def allocate (p : Pool C json) (host : Str) (saves : Saves) : IpAddr × Pool C json :=
  let candidate := nextAddr p.offset
  let wrapped := !addrLess candidate p.last
  let cycle := if wrapped then true else p.cycle
  let candidate := if wrapped then p.first else candidate
  let store := if cycle || p.store.exists candidate then p.store.delByIp candidate else p.store
  let store := save store saves.afterDel
  let store := save (store.put host candidate) saves.afterPut
  let store := if store.isPersistent then store.putState candidate cycle else store
  (candidate, { p with offset := candidate, cycle := cycle, store := store })

def lookup (p : Pool C json) (host : Str) (saves : Saves) : IpAddr × Pool C json :=
  let host := toAsciiLowercase host
  match (p.store.getByHost host).1 with
  | some existing => (existing, { p with store := (p.store.getByHost host).2 })
  | none => { p with store := (p.store.getByHost host).2 }.allocate host saves

def lookBack (p : Pool C json) (ip : IpAddr) : Option Str × Pool C json :=
  if ip = p.gateway ∨ ip = p.last then (none, p)
  else ((p.store.getByIp ip).1, { p with store := (p.store.getByIp ip).2 })

def isFakeIp (p : Pool C json) (ip : IpAddr) : Bool :=
  if !p.ipnet.contains ip then false
  else if ip = p.gateway ∨ ip = p.last then false
  else p.store.exists ip

def flush (p : Pool C json) (saves : Saves) : Pool C json :=
  let store := save p.store.flush saves.afterDel
  let offset := prevAddr p.first
  let store := if store.isPersistent then store.putState offset false else store
  { p with offset := offset, cycle := false, store := store }

/-- A restart with the same network: the store is opened again. A clean stop first writes a
changed state to the file, a crash does not. -/
def restart (p : Pool C json) (clean : Bool) : Pool C json :=
  let store := (if clean then p.store.persist true else p.store).reopen
  match new p.ipnet store with
  | .ok p' => p'
  | .error _ => p

end Pool

/-- The operations on a pool. -/
inductive PoolOp where
  | lookup (host : Str) (saves : Saves)
  | lookBack (ip : IpAddr)
  | flush (saves : Saves)
  | persist (ok : Bool)
  | restart (clean : Bool)

namespace Pool

variable {C : Type → Type → Type} [LruCache C] {json : Json}

def step (p : Pool C json) : PoolOp → Pool C json
  | .lookup host saves => (p.lookup host saves).2
  | .lookBack ip => (p.lookBack ip).2
  | .flush saves => p.flush saves
  | .persist ok => { p with store := p.store.persist ok }
  | .restart clean => p.restart clean

/-- A series of operations. -/
def run (p : Pool C json) (ops : List PoolOp) : Pool C json := ops.foldl step p

end Pool

open Pool

/-! ### The range of a pool -/

open IpAddr

variable (a : IpAddr)

lemma addrLess_iff (b : IpAddr) : addrLess a b ↔ a.isIpv4 = b.isIpv4 ∧ a.toNat < b.toNat := by
  cases a <;> cases b <;> simp [addrLess, isIpv4, IpAddr.toNat, BitVec.lt_def]

@[simp] lemma isIpv4_nextAddr : (nextAddr a).isIpv4 = a.isIpv4 := by
  cases a <;> rfl

lemma toNat_nextAddr : (nextAddr a).toNat = (a.toNat + 1) % 2 ^ a.width := by
  cases a <;> simp [nextAddr, IpAddr.toNat, width, BitVec.toNat_add]

@[simp] lemma width_nextAddr : (nextAddr a).width = a.width :=
  width_eq_of_isIpv4 (isIpv4_nextAddr a)

/-- The first address to hand out is the fourth after the network's, around the top. -/
lemma toNat_nextAddr_four :
    (nextAddr (nextAddr (nextAddr (nextAddr a)))).toNat = (a.toNat + 4) % 2 ^ a.width := by
  simp only [toNat_nextAddr, width_nextAddr, mod_add_mod]

@[simp] lemma nextAddr_prevAddr : nextAddr (prevAddr a) = a := by
  cases a <;> simp [nextAddr, prevAddr]

/-- What an accepted network gives: the range is not empty, and lies in one family. -/
lemma anchorAddrs_spec {net : IpNet} {gateway first last}
    (h : anchorAddrs net = .ok (gateway, first, last)) :
    gateway = nextAddr net.network ∧ first = nextAddr (nextAddr (nextAddr gateway)) ∧
      last = net.broadcast ∧ addrLess first last = true := by
  simp only [anchorAddrs] at h
  split_ifs at h with hless hfam
  obtain ⟨rfl, rfl, rfl⟩ := h
  exact ⟨rfl, rfl, rfl, by simpa using hless⟩

lemma containedInRange_iff {ip first last : IpAddr} (hfam : first.isIpv4 = last.isIpv4) :
    containedInRange ip first last ↔
      ip.isIpv4 = last.isIpv4 ∧ first.toNat ≤ ip.toNat ∧ ip.toNat < last.toNat := by
  rw [containedInRange, Bool.and_eq_true, Bool.not_eq_true', ← Bool.not_eq_true, addrLess_iff,
    addrLess_iff, hfam]
  constructor
  · rintro ⟨hnot, hip, hlt⟩
    exact ⟨hip, Nat.le_of_not_lt fun h => hnot ⟨hip, h⟩, hlt⟩
  · rintro ⟨hip, hle, hlt⟩
    exact ⟨fun h => absurd h.2 (not_lt.mpr hle), hip, hlt⟩

/-- The last address of the network is never handed out. -/
lemma containedInRange_last (first last : IpAddr) : containedInRange last first last = false := by
  have h : addrLess last last = false := by
    rw [← Bool.not_eq_true, addrLess_iff]
    simp
  rw [containedInRange, h, Bool.and_false]

/-- The gateway is never handed out, unless the network ends at the top of the address space.

**Proof sketch.** If counting up from the network's address to the first address to hand out
does not pass the top, the gateway is below the range. If it does, the network starts at one of
the last four addresses; were the gateway still below its end, the network would have at least
four addresses and so end at the top. -/
lemma containedInRange_gateway {net : IpNet} {gateway first last}
    (h : anchorAddrs net = .ok (gateway, first, last))
    (htop : net.broadcast.toNat ≠ 2 ^ net.broadcast.width - 1) :
    containedInRange gateway first last = false := by
  obtain ⟨rfl, rfl, rfl, hless⟩ := anchorAddrs_spec h
  have hfam := net.family
  have hw := width_eq_of_isIpv4 hfam
  rw [← Bool.not_eq_true, containedInRange_iff (by simp [hfam])]
  rintro ⟨-, hfirst, hlast⟩
  rw [toNat_nextAddr_four, toNat_nextAddr] at hfirst
  rw [toNat_nextAddr] at hlast
  have hbr := net.broadcast.toNat_lt
  have hbits := net.broadcast_eq
  rw [hw] at htop hbr
  generalize 2 ^ net.network.width = top at *
  have hone : net.network.toNat + 1 < top := by
    omega
  rw [mod_eq_of_lt hone] at hfirst hlast
  have hfour : 4 ≤ 2 ^ net.hostBits := by
    rcases lt_or_ge net.hostBits 2 with hlt | hge
    · interval_cases net.hostBits <;> omega
    · exact Nat.pow_le_pow_right (show 0 < 2 by omega) hge
  rw [mod_eq_of_lt (show net.network.toNat + 4 < top by omega)] at hfirst
  omega

/-! ### The pool's invariant -/

section PoolInvariant

variable {C : Type → Type → Type} [LruCache C] {json : Json}

/-- The invariant of a pool over a network. -/
structure PoolInv (net : IpNet) (p : Pool C json) : Prop where
  ipnet : p.ipnet = net
  anchors : anchorAddrs net = .ok (p.gateway, p.first, p.last)
  cursor : nextAddr p.offset = p.first ∨ containedInRange p.offset p.first p.last = true
  store : StoreInv (fun a => containedInRange a p.first p.last = true) p.store

variable {net : IpNet}

/-- The next address the cursor gives lies in the range. -/
lemma containedInRange_candidate {offset first last} (hrange : addrLess first last)
    (hcursor : nextAddr offset = first ∨ containedInRange offset first last) :
    containedInRange (if !addrLess (nextAddr offset) last then first else nextAddr offset) first
      last = true := by
  obtain ⟨hfam, hlt⟩ := (addrLess_iff _ _).mp hrange
  have hfirst : containedInRange first first last :=
    (containedInRange_iff hfam).mpr ⟨hfam, le_rfl, hlt⟩
  split_ifs with hwrap
  · exact hfirst
  · rcases hcursor with heq | hin
    · rw [heq]
      exact hfirst
    · obtain ⟨hfamo, hle, hlto⟩ := (containedInRange_iff hfam).mp hin
      rw [Bool.not_eq_true', Bool.not_eq_false, addrLess_iff] at hwrap
      refine (containedInRange_iff hfam).mpr ⟨hwrap.1, ?_, hwrap.2⟩
      have hlast := last.toNat_lt
      rw [toNat_nextAddr, width_eq_of_isIpv4 hfamo, mod_eq_of_lt (by omega)]
      omega

omit [LruCache C] in
/-- A new pool: its cursor is in the range or before it, also when the store has one. -/
lemma Pool.new_spec {store} {p : Pool C json} (hp : Pool.new net store = .ok p) :
    p.ipnet = net ∧ anchorAddrs net = .ok (p.gateway, p.first, p.last) ∧
      (nextAddr p.offset = p.first ∨ containedInRange p.offset p.first p.last) ∧
      p.store = store := by
  simp only [new] at hp
  cases hanchor : anchorAddrs net with
  | error e => simp [hanchor] at hp
  | ok anchors =>
    obtain ⟨gateway, first, last⟩ := anchors
    simp only [hanchor, Except.ok.injEq] at hp
    subst hp
    refine ⟨rfl, rfl, ?_, rfl⟩
    cases store.getState with
    | none => exact .inl (nextAddr_prevAddr first)
    | some state =>
      by_cases hin : containedInRange state.1 first last
      · simp only [hin, if_true]
        exact .inr trivial
      · simp only [hin]
        exact .inl (nextAddr_prevAddr first)

variable {p : Pool C json}

/-- A pool made over a store in order has the invariant. -/
lemma PoolInv.new {store} (hp : Pool.new net store = .ok p)
    (hstore : StoreInv (fun a => containedInRange a p.first p.last) store) : PoolInv net p := by
  obtain ⟨hnet, hanchors, hcursor, heq⟩ := new_spec hp
  exact ⟨hnet, hanchors, hcursor, heq ▸ hstore⟩

/-- Rounds of the background task do not touch the table. -/
lemma save_tables (s : Store C json) (ran : Option Bool) :
    (save s ran).forward = s.forward ∧ (save s ran).backward = s.backward := by
  cases ran with
  | none => exact ⟨rfl, rfl⟩
  | some ok => exact s.persist_tables ok

/-- What a property of stores needs in order to outlast an allocation of an address in `P`. -/
structure AllocRules (P : IpAddr → Prop) (Ok : Store C json → Prop) : Prop where
  delByIp : ∀ {s}, Ok s → ∀ ip, Ok (s.delByIp ip) ∧ (s.delByIp ip).backward ip = none ∧
    ∀ x, s.forward x = none → (s.delByIp ip).forward x = none
  persist : ∀ {s}, Ok s → ∀ ok, Ok (s.persist ok)
  put : ∀ {s}, Ok s → ∀ {host ip}, s.forward host = none → s.backward ip = none → P ip →
    Ok (s.put host ip) ∧ (s.put host ip).forward host = some ip
  putState : ∀ {s}, Ok s → ∀ offset cycle,
    Ok (if s.isPersistent then s.putState offset cycle else s)

variable {Ok : Store C json → Prop} {P : IpAddr → Prop}

lemma AllocRules.save (rules : AllocRules P Ok) {s} (h : Ok s) (ran : Option Bool) :
    Ok (save s ran) := by
  cases ran with
  | none => exact h
  | some ok => exact rules.persist h ok

variable {host : Str}

/-- **Allocation.** For a host without an address it keeps what the rules are for, and the host has
the address that is returned.

**Proof sketch.** The old pair of the candidate, if any, is deleted first; the host has no pair, so
a new pair is written. -/
lemma AllocRules.allocate (rules : AllocRules P Ok) {p : Pool C json} (h : Ok p.store)
    (hhost : p.store.forward host = none) (saves : Saves) (hcand : P (p.allocate host saves).1) :
    Ok (p.allocate host saves).2.store ∧
      (p.allocate host saves).2.store.forward host = some (p.allocate host saves).1 := by
  simp only [Pool.allocate] at hcand ⊢
  generalize (if !addrLess (nextAddr p.offset) p.last then true else p.cycle) = cycle
  generalize (if !addrLess (nextAddr p.offset) p.last then p.first else nextAddr p.offset) =
    candidate at hcand
  -- the address is free after the deletion
  obtain ⟨s₁, hs₁, hok₁, hfree₁, hhost₁⟩ : ∃ s₁,
      (if cycle || p.store.exists candidate then p.store.delByIp candidate else p.store) = s₁ ∧
      Ok s₁ ∧ s₁.backward candidate = none ∧ s₁.forward host = none := by
    refine ⟨_, rfl, ?_⟩
    split_ifs with hdel
    · obtain ⟨hok, hfree, hnone⟩ := rules.delByIp h candidate
      exact ⟨hok, hfree, hnone host hhost⟩
    · rw [Bool.or_eq_true, not_or, Store.exists_eq, Bool.not_eq_true, Bool.not_eq_true,
        Option.isSome_eq_false_iff, Option.isNone_iff_eq_none] at hdel
      exact ⟨h, hdel.2, hhost⟩
  rw [hs₁]
  obtain ⟨hf₂, hb₂⟩ := save_tables s₁ saves.afterDel
  obtain ⟨hok₃, hput⟩ := rules.put (rules.save hok₁ saves.afterDel) (hf₂ ▸ hhost₁) (hb₂ ▸ hfree₁)
    hcand
  refine ⟨rules.putState (rules.save hok₃ saves.afterPut) candidate cycle, ?_⟩
  rw [(putState_tables _ _ _).1, (save_tables _ _).1, hput]

/-- The address of an allocation lies in the range. -/
lemma containedInRange_allocate {p : Pool C json}
    (hanchors : anchorAddrs net = .ok (p.gateway, p.first, p.last))
    (hcursor : nextAddr p.offset = p.first ∨ containedInRange p.offset p.first p.last) (host : Str)
    (saves : Saves) : containedInRange (p.allocate host saves).1 p.first p.last = true :=
  containedInRange_candidate (anchorAddrs_spec hanchors).2.2.2 hcursor

variable (P)

lemma allocRules_storeInv : AllocRules P (StoreInv P : Store C json → Prop) :=
  ⟨delByIp_spec, persist_spec, put_spec, putState_spec⟩

/-- **Allocation** keeps the invariant, and the host has the address that is returned. -/
lemma PoolInv.allocate {p : Pool C json} (h : PoolInv net p) (hhost : p.store.forward host = none)
    (saves : Saves) :
    PoolInv net (p.allocate host saves).2 ∧
      (p.allocate host saves).2.store.forward host = some (p.allocate host saves).1 := by
  have hcand := containedInRange_allocate h.anchors h.cursor host saves
  obtain ⟨hok, hfound⟩ := (allocRules_storeInv _).allocate h.store hhost saves hcand
  exact ⟨⟨h.ipnet, h.anchors, .inr hcand, hok⟩, hfound⟩

/-- **A lookup** keeps the invariant, and the host, in lower case, has the address that is
returned. -/
lemma PoolInv.lookup (h : PoolInv net p) (host : Str) (saves : Saves) :
    PoolInv net (p.lookup host saves).2 ∧
      (p.lookup host saves).2.store.forward (toAsciiLowercase host) =
        some (p.lookup host saves).1 := by
  obtain ⟨hfound, hf, hb, hsaved⟩ := getByHost_spec
    (P := fun a => containedInRange a p.first p.last) p.store (toAsciiLowercase host)
  have h' : PoolInv net { p with store := (p.store.getByHost (toAsciiLowercase host)).2 } :=
    ⟨h.ipnet, h.anchors, h.cursor, h.store.of_eq hf hb (hsaved.mpr h.store.saved)⟩
  simp only [Pool.lookup]
  cases hget : (p.store.getByHost (toAsciiLowercase host)).1 with
  | some existing =>
    refine ⟨h', ?_⟩
    rw [hf, ← hfound, hget]
  | none =>
    rw [hget] at hfound
    exact h'.allocate ((hf _).trans hfound.symm) saves

/-- Each operation keeps the invariant. -/
lemma PoolInv.step {p : Pool C json} (h : PoolInv net p) (op : PoolOp) :
    PoolInv net (p.step op) := by
  cases op with
  | lookup host saves => exact (h.lookup host saves).1
  | lookBack ip =>
    simp only [Pool.step, Pool.lookBack]
    split_ifs
    · exact h
    · obtain ⟨-, hf, hb, hsaved⟩ := getByIp_spec
        (P := fun a => containedInRange a p.first p.last) p.store ip
      exact ⟨h.ipnet, h.anchors, h.cursor, h.store.of_eq hf hb (hsaved.mpr h.store.saved)⟩
  | flush saves =>
    have hflush : StoreInv (fun a => containedInRange a p.first p.last) p.store.flush :=
      flush_spec h.store.saved
    have hinv := (allocRules_storeInv _).save hflush saves.afterDel
    exact ⟨h.ipnet, h.anchors, .inl (nextAddr_prevAddr p.first),
      putState_spec hinv (prevAddr p.first) false⟩
  | persist ok => exact ⟨h.ipnet, h.anchors, h.cursor, persist_spec h.store ok⟩
  | restart clean =>
    have hsaved : (if clean then p.store.persist true else p.store).SavedOk
        (fun a => containedInRange a p.first p.last) := by
      split_ifs
      · exact (persist_spec h.store true).saved
      · exact h.store.saved
    simp only [Pool.step, Pool.restart]
    generalize (if clean then p.store.persist true else p.store) = store at hsaved
    cases hnew : Pool.new p.ipnet store.reopen with
    | error e => exact h
    | ok p' =>
      -- the anchors are those of the network, before and after
      rw [h.ipnet] at hnew
      have hsame : p'.first = p.first ∧ p'.last = p.last := by
        have := hnew
        simp only [Pool.new, h.anchors, Except.ok.injEq] at this
        rw [← this]
        exact ⟨rfl, rfl⟩
      refine .new hnew ?_
      rw [hsame.1, hsame.2]
      exact reopen_spec hsaved

lemma PoolInv.run (h : PoolInv net p) (ops : List PoolOp) : PoolInv net (p.run ops) :=
  List.foldlRecOn ops _ h fun _ h op _ => h.step op

/-- The reverse lookup of an address that a host has finds the host. -/
lemma PoolInv.lookBack (h : PoolInv net p)
    (htop : net.broadcast.toNat ≠ 2 ^ net.broadcast.width - 1) {ip}
    (hip : p.store.forward host = some ip) : (p.lookBack ip).1 = some host := by
  have hin := h.store.inRange host ip hip
  have hgw : ip ≠ p.gateway := by
    rintro rfl
    rw [containedInRange_gateway h.anchors htop] at hin
    simp at hin
  have hlast : ip ≠ p.last := by
    rintro rfl
    rw [containedInRange_last] at hin
    simp at hin
  obtain ⟨hfound, -⟩ := getByIp_spec
    (P := fun a => containedInRange a p.first p.last) p.store ip
  simp only [Pool.lookBack, hgw, hlast, or_self, hfound]
  exact (h.store.inverse host ip).mp hip

/-- Which store a pool is started with, and the size of one in memory. -/
inductive Backend where
  | memory (size : ℕ)
  | file

/-- The empty store. -/
def Backend.empty : Backend → Store C json
  | .memory size => .memory (.new size)
  | .file => .file (.open none)

/-- An empty store is in order. -/
lemma storeInv_empty (backend : Backend) : StoreInv P (backend.empty : Store C json) := by
  cases backend with
  | memory size =>
    refine ⟨?_, ?_, trivial⟩
    · intro x a
      simp [Backend.empty, MemoryStore.new, forward, backward]
    · intro x a hx
      simp [Backend.empty, MemoryStore.new, forward] at hx
  | file =>
    have hsaved : Store.SavedOk P (.file (.open none) : Store C json) := by
      simp [Store.SavedOk, SnapshotOk, FileStore.open, FileStore.loadSnapshot,
        PersistedSnapshot.default]
    exact reopen_spec hsaved

/-- **The table of a fake-IP pool is one-to-one.** For every accepted network that does not end at
the top of the address space, either store, and every series of lookups, reverse lookups, flushes,
writes of the file and restarts, clean or after a crash, that starts with an empty store:

* the maps from hosts to addresses and from addresses to hosts are exact inverses, so that no
  two hosts share an address;
* every address in them lies in the range `[first, last)` of the network;
* the reverse lookup of an address that a lookup has just returned gives the host, in lower
  case. -/

theorem pool_run_inverse (net : IpNet)
    (htop : net.broadcast.toNat ≠ 2 ^ net.broadcast.width - 1) (backend : Backend)
    (p : Pool C json) (hp : Pool.new net backend.empty = .ok p) (ops : List PoolOp) :
    Inverse (p.run ops).store.forward (p.run ops).store.backward ∧
      (∀ h h' a, (p.run ops).store.forward h = some a → (p.run ops).store.forward h' = some a →
        h = h') ∧
      (∀ h a, (p.run ops).store.forward h = some a →
        containedInRange a p.first p.last = true) ∧
      ∀ host saves, (((p.run ops).lookup host saves).2.lookBack
        ((p.run ops).lookup host saves).1).1 = some (toAsciiLowercase host) := by
  have h₀ : PoolInv net p := .new hp (storeInv_empty _ backend)
  have h := h₀.run ops
  have hsame : (p.run ops).first = p.first ∧ (p.run ops).last = p.last := by
    have heq := h.anchors.symm.trans h₀.anchors
    simp only [Except.ok.injEq, Prod.mk.injEq] at heq
    exact heq.2
  refine ⟨h.store.inverse, fun _ _ _ h1 h2 => h.store.inverse.eq_of_eq h1 h2, ?_, ?_⟩
  · intro host a ha
    rw [← hsame.1, ← hsame.2]
    exact h.store.inRange host a ha
  · intro host saves
    obtain ⟨h', hfound⟩ := h.lookup host saves
    exact h'.lookBack htop hfound

end PoolInvariant

/-- The network `198.18.0.0/24`. -/
def testNet : IpNet where
  hostBits := 8
  network := .v4 0xC6120000
  broadcast := .v4 0xC61200FF
  contains ip := ip.isIpv4 && decide (0xC6120000 ≤ ip.toNat) && decide (ip.toNat ≤ 0xC61200FF)
  hostBits_le := by decide
  family := rfl
  aligned := by decide
  broadcast_eq := by decide
  contains_iff ip := by
    rw [Bool.and_eq_true, Bool.and_eq_true, decide_eq_true_eq, decide_eq_true_eq, and_assoc]
    rfl

/-- A snapshot read back as it is. -/
def plainJson : Json := ⟨PersistedSnapshot, id, some, fun _ => rfl⟩

/-- The pool over `198.18.0.0/24` with an empty file. -/
def testPool : Pool ListLru plainJson where
  ipnet := testNet
  gateway := .v4 0xC6120001
  first := .v4 0xC6120004
  last := .v4 0xC61200FF
  offset := .v4 0xC6120003
  cycle := false
  store := Backend.file.empty

/-- After a lookup and a restart, the next name is found again from its address. -/
theorem testPool_lookBack :
    Pool.new testNet Backend.file.empty = .ok testPool ∧
      (((testPool.run [.lookup (str "a.example") ⟨none, none⟩, .restart true]).lookup
        (str "B.example") ⟨none, none⟩).2.lookBack
        ((testPool.run [.lookup (str "a.example") ⟨none, none⟩, .restart true]).lookup
          (str "B.example") ⟨none, none⟩).1).1 = some (str "b.example") := by
  have hnew : new testNet Backend.file.empty = .ok testPool := rfl
  have hall := pool_run_inverse testNet (by decide) .file testPool hnew
    [.lookup (str "a.example") ⟨none, none⟩, .restart true]
  refine ⟨hnew, (hall.2.2.2 (str "B.example") ⟨none, none⟩).trans ?_⟩
  decide

end Meow.Dns
