import Meow.Lib.Lru
import Meow.Lib.Text
import Meow.Net.IpAddr

/-!
# The DNS cache

The forward cache of the resolver (`cache.rs`) keeps one entry for a name, with the addresses of
both families in one list, an expiry for each family, and packed bits that say which families
were asked for and how a family's answer was negative. A write for one family rewrites the whole
entry and has to carry the other family over.

What the cache is for is simpler: one register for each name and family, which its own writes
alone change. The cache is shown to answer as these registers do. They differ in one respect: a
write removes repeated addresses from the whole list, so that a repeated address that a
replacement of the whole entry has put in does not survive a write for the other family.

Time is a number of nanoseconds; operations happen in the order of time.

## Main definitions

* `CacheEntry`, `DnsCache` — the cache, with `getLookup`, `putWithSource` and `mergeFamily`.
* `Register` — the register of one name and family.
* `CacheOp`, `CacheRun.run` — the cache and the registers under the same operations.

## Main results

* `slot_mergeEntry` — what a write for one family does to either family.
* `CacheSim.step` — each operation keeps the cache and the registers together.
* `run_lookup_eq_register` — a lookup answers as the registers do.
-/

namespace Meow.Dns

open LruCache Function

/-! ### Families and negative answers -/

/-- `QueryFamilies`: a set of families as bits. -/
structure QueryFamilies where
  bits : BitVec 8
  deriving DecidableEq

namespace QueryFamilies

def none : QueryFamilies := ⟨0⟩
def ipv4 : QueryFamilies := ⟨1⟩
def ipv6 : QueryFamilies := ⟨2⟩
def both : QueryFamilies := ⟨ipv4.bits ||| ipv6.bits⟩

def contains (self family : QueryFamilies) : Bool := self.bits &&& family.bits == family.bits

def union (self other : QueryFamilies) : QueryFamilies := ⟨self.bits ||| other.bits⟩

/-- The family of an address. -/
def ofIp (ip : IpAddr) : QueryFamilies := if ip.isIpv4 then ipv4 else ipv6

def fromIps (ips : List IpAddr) : QueryFamilies :=
  ips.foldl (fun families ip => families.union (ofIp ip)) none

def containsIp (self : QueryFamilies) (ip : IpAddr) : Bool := self.contains (ofIp ip)

def other (self : QueryFamilies) : QueryFamilies := if self = ipv4 then ipv6 else ipv4

end QueryFamilies

/-- `FamilyNeg`: how the answer for one family was negative. -/
inductive FamilyNeg where
  | none
  | noData
  | nxDomain
  deriving DecidableEq

/-- `NegKind`: the codes of both families, two bits each. -/
structure NegKind where
  bits : BitVec 8
  deriving DecidableEq

namespace NegKind

/-- `NegKind::NONE`, `NODATA` and `NXDOMAIN`. -/
def code : FamilyNeg → BitVec 8
  | .none => 0
  | .noData => 1
  | .nxDomain => 2

def empty : NegKind := ⟨0⟩

def familyShift (family : QueryFamilies) : ℕ := if family = .ipv4 then 0 else 2

def «with» (self : NegKind) (family : QueryFamilies) (kind : BitVec 8) : NegKind :=
  ⟨(self.bits &&& ~~~(3#8 <<< familyShift family)) ||| ((kind &&& 3#8) <<< familyShift family)⟩

def get (self : NegKind) (family : QueryFamilies) : BitVec 8 :=
  (self.bits >>> familyShift family) &&& 3#8

def familyKind (self : NegKind) (family : QueryFamilies) : FamilyNeg :=
  if self.get family = code .noData then .noData
  else if self.get family = code .nxDomain then .nxDomain
  else .none

end NegKind

/-! ### Entries -/

structure CacheEntry where
  ips : List IpAddr
  expireV4 : ℕ
  expireV6 : ℕ
  source : Option Str
  queried : QueryFamilies
  neg : NegKind
  deriving DecidableEq

/-- `if family == IPV4 { expire_v4 } else { expire_v6 }`. -/
def CacheEntry.expireOf (e : CacheEntry) (family : QueryFamilies) : ℕ :=
  if family = .ipv4 then e.expireV4 else e.expireV6

/-- The assignment to the expiry of one family. -/
def CacheEntry.setExpire (e : CacheEntry) (family : QueryFamilies) (expire : ℕ) : CacheEntry :=
  if family = .ipv4 then { e with expireV4 := expire } else { e with expireV6 := expire }

/-- A family that was asked for and is not expired. -/
def CacheEntry.fresh (e : CacheEntry) (family : QueryFamilies) (now : ℕ) : Bool :=
  e.queried.contains family && decide (e.expireOf family > now)

/-- `FamilyCacheHit`: what a lookup says about one family. -/
inductive FamilyCacheHit where
  | answer (ips : List IpAddr) (remaining : ℕ)
  | noData
  | nxDomain
  | miss
  deriving DecidableEq

def familyHit (e : CacheEntry) (family : QueryFamilies) (fresh : Bool) (now : ℕ) :
    FamilyCacheHit :=
  if !fresh then .miss
  else
    let remaining := e.expireOf family - now
    let ips := e.ips.filter family.containsIp
    if ips.isEmpty then
      match e.neg.familyKind family with
      | .nxDomain => .nxDomain
      | _ => .noData
    else .answer ips remaining

structure CacheLookup where
  ips : List IpAddr
  ttl : ℕ
  v4 : FamilyCacheHit
  v6 : FamilyCacheHit
  deriving DecidableEq

/-- `Duration::MAX`, in nanoseconds. -/
def durationMax : ℕ := 18446744073709551615 * 1000000000 + 999999999

/-- The addresses and the least remaining lifetime of the hits. -/
def gatherHits (hits : List FamilyCacheHit) : List IpAddr × ℕ :=
  let r := hits.foldl (fun acc hit =>
    match hit with
    | .answer ips ttl => (acc.1 ++ ips, if ttl < acc.2 then ttl else acc.2)
    | _ => acc) (([], durationMax) : List IpAddr × ℕ)
  (r.1, if r.2 = durationMax then 0 else r.2)

/-- The loop of `merge_family` that removes repeated addresses: `kept` is what the index has
passed, `rest` what is still ahead. -/
def dedupLoop {α : Type} [DecidableEq α] : List α → List α → List α
  | kept, [] => kept
  | kept, x :: rest => if x ∈ kept then dedupLoop kept rest else dedupLoop (kept ++ [x]) rest

/-- The list without repetitions, in the order of first occurrence. -/
def dedup {α : Type} [DecidableEq α] (l : List α) : List α := dedupLoop [] l

/-- `preserve_existing` in `merge_family`: a NODATA does not take the place of a fresh NXDOMAIN or
positive answer. -/
def preserveExisting (existing : CacheEntry) (family : QueryFamilies) (ips : List IpAddr)
    (now : ℕ) (neg : FamilyNeg) : Bool :=
  existing.fresh family now && decide (neg = .noData) && ips.isEmpty &&
    (decide (existing.neg.get family = NegKind.code .nxDomain) ||
      !(existing.ips.filter family.containsIp).isEmpty)

/-- The part of `merge_family` for the family itself. -/
def mergeSame (m existing : CacheEntry) (family : QueryFamilies) (ips : List IpAddr) (now : ℕ)
    (neg : FamilyNeg) : CacheEntry :=
  if preserveExisting existing family ips now neg then
    CacheEntry.setExpire
      { m with
        ips := m.ips ++ existing.ips.filter family.containsIp
        neg := m.neg.with family (NegKind.code
          (if (existing.ips.filter family.containsIp).isEmpty then .nxDomain else .none)) }
      family (existing.expireOf family)
  else m

/-- The part of `merge_family` for the other family: it is carried over while it is fresh. -/
def mergeOther (m existing : CacheEntry) (other : QueryFamilies) (now : ℕ) : CacheEntry :=
  if existing.queried.contains other then
    if existing.expireOf other > now then
      CacheEntry.setExpire
        { m with
          queried := m.queried.union other
          ips := m.ips ++ existing.ips.filter other.containsIp
          neg := m.neg.with other (existing.neg.get other) }
        other (existing.expireOf other)
    else m
  else m

/-- The values that `merge_family` starts from. -/
def mergeStart (family : QueryFamilies) (now ttl : ℕ) (source : Option Str) (neg : FamilyNeg) :
    CacheEntry :=
  { ips := [], expireV4 := now + ttl, expireV6 := now + ttl, source := source,
    queried := family, neg := NegKind.empty.with family (NegKind.code neg) }

/-- The entry that `merge_family` writes. -/
def mergeEntry (existing : Option CacheEntry) (family : QueryFamilies) (ips : List IpAddr)
    (now ttl : ℕ) (source : Option Str) (neg : FamilyNeg) : CacheEntry :=
  let start := mergeStart family now ttl source neg
  let merged := match existing with
    | none => start
    | some existing =>
      let m := mergeOther (mergeSame start existing family ips now neg) existing family.other now
      { m with source := m.source.or existing.source }
  { merged with ips := dedup (merged.ips ++ ips) }

/-- The entry that `put_with_source` writes: without addresses, an NXDOMAIN for both families. -/
def putEntry (ips : List IpAddr) (now ttl : ℕ) (source : Option Str) : CacheEntry :=
  let (queried, neg) :=
    if ips.isEmpty then
      (QueryFamilies.both, (NegKind.empty.with .ipv4 (NegKind.code .nxDomain)).with .ipv6
        (NegKind.code .nxDomain))
    else (QueryFamilies.fromIps ips, NegKind.empty)
  { ips := ips, expireV4 := now + ttl, expireV6 := now + ttl, source := source,
    queried := queried, neg := neg }

/-! ### The cache -/

structure ReverseEntry where
  domain : Str
  expireAt : ℕ
  deriving DecidableEq

/-- `DnsCache`: the shards of the two maps, and the number of entries a shard may hold. -/
structure DnsCache (C : Type → Type → Type) where
  cache : Fin 16 → C Str CacheEntry
  reverse : Fin 16 → C IpAddr ReverseEntry
  fwdShardCap : ℕ
  revShardCap : ℕ
  fwdShardCap_pos : 0 < fwdShardCap

def fnv1a32 (bytes : List UInt8) : UInt32 :=
  bytes.foldl (fun h b => (h ^^^ b.toUInt32) * 0x01000193) 0x811c9dc5

/-- `hash as usize & SHARD_MASK`. -/
def shardOf (h : UInt32) : Fin 16 := Fin.ofNat 16 h.toNat

def shardStr (s : Str) : Fin 16 := shardOf (fnv1a32 (asBytes s))

def shardIp (ip : IpAddr) : Fin 16 := shardOf (fnv1a32 ip.octets)

def perShardCap (total min : ℕ) : ℕ := max (total / 16) min

def normalizeDomain (domain : Str) : Str := toAsciiLowercase domain

/-- `REVERSE_TTL_FLOOR`, in nanoseconds. -/
def reverseTtlFloor : ℕ := 600 * 1000000000

namespace DnsCache

variable {C : Type → Type → Type} [LruCache C]

def new (capacity : ℕ) : DnsCache C where
  cache _ := unbounded
  reverse _ := unbounded
  fwdShardCap := perShardCap (max capacity 16) 8
  revShardCap := perShardCap (max (min (capacity * 4) 18446744073709551615) 16) 16
  fwdShardCap_pos := lt_of_lt_of_le (by omega) (le_max_right _ 8)

/-- `DnsCache::get_lookup` at time `now`: an entry with no fresh family is removed. -/
def getLookup (self : DnsCache C) (domain : Str) (now : ℕ) : Option CacheLookup × DnsCache C :=
  let domain := normalizeDomain domain
  let shard := shardStr domain
  let r := get (self.cache shard) domain
  match r.1 with
  | none => (none, { self with cache := Function.update self.cache shard r.2 })
  | some entry =>
    let v4Fresh := entry.fresh .ipv4 now
    let v6Fresh := entry.fresh .ipv6 now
    if v4Fresh || v6Fresh then
      let v4 := familyHit entry .ipv4 v4Fresh now
      let v6 := familyHit entry .ipv6 v6Fresh now
      let (ips, ttl) := gatherHits [v4, v6]
      (some ⟨ips, ttl, v4, v6⟩, { self with cache := Function.update self.cache shard r.2 })
    else (none, { self with cache := Function.update self.cache shard (pop r.2 domain).2 })

/-- The loop that enters the addresses of an answer into the reverse map. -/
def putReverse (self : DnsCache C) (key : Str) (ips : List IpAddr) (expireAt : ℕ) : DnsCache C :=
  ips.foldl (fun self ip =>
    let c := put (self.reverse (shardIp ip)) ip ⟨key, expireAt⟩
    let c := if len c > self.revShardCap then (popLru c).2 else c
    { self with reverse := Function.update self.reverse (shardIp ip) c }) self

/-- The shard after an entry was written to it, before its size is checked. -/
def written (self : DnsCache C) (key : Str) (entry : CacheEntry) : C Str CacheEntry :=
  put (self.cache (shardStr key)) key entry

/-- Write an entry, and remove the least recently used one from a shard that is too large. -/
def insert (self : DnsCache C) (key : Str) (entry : CacheEntry) : DnsCache C :=
  let c := self.written key entry
  let c := if len c > self.fwdShardCap then (popLru c).2 else c
  { self with cache := Function.update self.cache (shardStr key) c }

/-- `DnsCache::put_with_source` and `put_replacing`, at time `now`. -/
def putWithSource (self : DnsCache C) (domain : Str) (ips : List IpAddr) (now ttl : ℕ)
    (source : Option Str) : DnsCache C :=
  let key := normalizeDomain domain
  (self.putReverse key ips (now + max ttl reverseTtlFloor)).insert key
    (putEntry ips now ttl source)

/-- `DnsCache::merge_family`, at time `now`: only for a single family. -/
def mergeFamily (self : DnsCache C) (domain : Str) (family : QueryFamilies) (ips : List IpAddr)
    (now ttl : ℕ) (source : Option Str) (neg : FamilyNeg) : DnsCache C :=
  if family ≠ .ipv4 ∧ family ≠ .ipv6 then self
  else
    let key := normalizeDomain domain
    let self := self.putReverse key ips (now + max ttl reverseTtlFloor)
    let r := get (self.cache (shardStr key)) key
    { self with cache := Function.update self.cache (shardStr key) r.2 }.insert key
      (mergeEntry r.1 family ips now ttl source neg)

def clear (self : DnsCache C) : DnsCache C :=
  { self with
    cache := fun i => LruCache.clear (self.cache i)
    reverse := fun i => LruCache.clear (self.reverse i) }

end DnsCache

/-! ### Registers -/

/-- An address family. -/
inductive Family where
  | v4
  | v6
  deriving DecidableEq

/-- The set of one family. -/
def Family.bits : Family → QueryFamilies
  | v4 => .ipv4
  | v6 => .ipv6

/-- The other family. -/
def Family.other : Family → Family
  | v4 => v6
  | v6 => v4

/-- What was written for one family: the addresses, or how the answer was negative, and when it
expires. -/
structure Record where
  ips : List IpAddr
  neg : FamilyNeg
  expire : ℕ
  deriving DecidableEq

/-- The register of one name and family. -/
abbrev Register := Option Record

namespace Register

/-- What the register says at time `now`. -/
def read (r : Register) (now : ℕ) : FamilyCacheHit :=
  match r with
  | none => .miss
  | some rec =>
    if rec.expire > now then
      if rec.ips = [] then if rec.neg = .nxDomain then .nxDomain else .noData
      else .answer rec.ips (rec.expire - now)
    else .miss

/-- A write for the family. A NODATA does not take the place of an NXDOMAIN or of addresses that
are not expired. -/
def merge (r : Register) (ips : List IpAddr) (now ttl : ℕ) (neg : FamilyNeg) : Register :=
  match r with
  | none => some ⟨ips, neg, now + ttl⟩
  | some rec =>
    if rec.expire > now ∧ neg = .noData ∧ ips = [] ∧ (rec.neg = .nxDomain ∨ rec.ips ≠ []) then
      some rec
    else some ⟨ips, neg, now + ttl⟩

/-- The family's part of a replacement of the whole entry. A list without addresses says that
the name does not exist; a list with addresses of the other family only says nothing about this
one. -/
def replace (f : Family) (ips : List IpAddr) (now ttl : ℕ) : Register :=
  if ips = [] then some ⟨[], .nxDomain, now + ttl⟩
  else if ips.filter f.bits.containsIp = [] then none
  else some ⟨ips.filter f.bits.containsIp, .none, now + ttl⟩

end Register

/-- The hit without repeated addresses. -/
def FamilyCacheHit.distinct : FamilyCacheHit → FamilyCacheHit
  | .answer ips remaining => .answer (dedup ips) remaining
  | hit => hit

/-- What a lookup says about one family. -/
def CacheLookup.hit (lookup : Option CacheLookup) (f : Family) : FamilyCacheHit :=
  match lookup, f with
  | none, _ => .miss
  | some l, .v4 => l.v4
  | some l, .v6 => l.v6

/-! ### Runs -/

section Run

variable {C : Type → Type → Type} [LruCache C]

/-- An operation, and the time since the one before. The addresses of a write for one family are
of that family. -/
inductive CacheOp where
  | put (wait : ℕ) (domain : Str) (ips : List IpAddr) (ttl : ℕ) (source : Option Str)
  | merge (wait : ℕ) (domain : Str) (family : Family)
      (ips : {l : List IpAddr // ∀ ip ∈ l, family.bits.containsIp ip = true}) (ttl : ℕ)
      (source : Option Str) (neg : FamilyNeg)
  | lookup (wait : ℕ) (domain : Str)
  | clear (wait : ℕ)

/-- The entry of a name. -/
def DnsCache.entry (self : DnsCache C) (name : Str) : Option CacheEntry :=
  find (self.cache (shardStr name)) name

/-- The cache and the registers at a time. -/
structure CacheRun (C : Type → Type → Type) where
  cache : DnsCache C
  regs : Str → Family → Register
  now : ℕ

/-- The shard of a name has no place for another entry. -/
def DnsCache.full (self : DnsCache C) (name : Str) : Bool :=
  decide (self.fwdShardCap ≤ len (self.cache (shardStr name)))

/-- The registers after the cache went from `before` to `after` by a write for the name `key`:
its registers are written, and those of a name that the write has pushed out of a full shard are
emptied. -/
def writeRegs (before after : DnsCache C) (key : Str) (value : Family → Register)
    (regs : Str → Family → Register) : Str → Family → Register := fun name f =>
  if name = key then value f
  else if before.full name && (before.entry name).isSome && (after.entry name).isNone then none
  else regs name f

namespace CacheRun

/-- A new cache and empty registers. -/
def new (capacity : ℕ) : CacheRun C := ⟨.new capacity, fun _ _ => none, 0⟩

/-- One operation on both. -/
def step (s : CacheRun C) : CacheOp → CacheRun C
  | .put wait domain ips ttl source =>
    let now := s.now + wait
    let cache := s.cache.putWithSource domain ips now ttl source
    ⟨cache, writeRegs s.cache cache (normalizeDomain domain)
      (fun f => Register.replace f ips now ttl) s.regs, now⟩
  | .merge wait domain family ips ttl source neg =>
    let now := s.now + wait
    let cache := s.cache.mergeFamily domain family.bits ips.1 now ttl source neg
    let key := normalizeDomain domain
    ⟨cache, writeRegs s.cache cache key
      (fun f => if f = family then (s.regs key f).merge ips.1 now ttl neg else s.regs key f)
      s.regs, now⟩
  | .lookup wait domain => ⟨(s.cache.getLookup domain (s.now + wait)).2, s.regs, s.now + wait⟩
  | .clear wait => ⟨s.cache.clear, fun _ _ => none, s.now + wait⟩

/-- A series of operations from a new cache on. -/
def run (capacity : ℕ) (ops : List CacheOp) : CacheRun C := ops.foldl step (new capacity)

end CacheRun

end Run

/-! ### Removing repetitions -/

open List

section Dedup

variable {α : Type} [DecidableEq α] (p : α → Bool)

lemma filter_dedupLoop (kept l : List α) :
    (dedupLoop kept l).filter p = dedupLoop (kept.filter p) (l.filter p) := by
  induction l generalizing kept with
  | nil => rfl
  | cons x l ih =>
    by_cases hx : x ∈ kept <;> cases hp : p x <;> simp [dedupLoop, hx, hp, ih, filter_append]

@[simp] lemma filter_dedup (l : List α) : (dedup l).filter p = dedup (l.filter p) :=
  filter_dedupLoop p [] l

lemma nodup_dedupLoop {kept : List α} (h : kept.Nodup) (l : List α) : (dedupLoop kept l).Nodup := by
  induction l generalizing kept with
  | nil => exact h
  | cons x l ih =>
    rw [dedupLoop]
    split_ifs with hx
    · exact ih h
    · exact ih (by simpa using h.concat hx)

lemma dedupLoop_of_nodup {kept l : List α} (h : (kept ++ l).Nodup) :
    dedupLoop kept l = kept ++ l := by
  induction l generalizing kept with
  | nil => rw [append_nil, dedupLoop]
  | cons x l ih =>
    have hx : x ∉ kept := fun hmem =>
      (nodup_append.mp h).2.2 x hmem x mem_cons_self rfl
    rw [dedupLoop, if_neg hx, ih (by simpa using h), append_assoc, singleton_append]

variable (l : List α)

@[simp] lemma dedup_dedup : dedup (dedup l) = dedup l := by
  rw [dedup, dedupLoop_of_nodup (nodup_dedupLoop nodup_nil l), nil_append]

lemma mem_dedupLoop {x : α} (kept l : List α) : x ∈ dedupLoop kept l ↔ x ∈ kept ∨ x ∈ l := by
  induction l generalizing kept with
  | nil => simp [dedupLoop]
  | cons y l ih => grind [dedupLoop]

/-- Removing repetitions never empties a list. -/
@[simp] lemma dedup_eq_nil {l : List α} : dedup l = [] ↔ l = [] := by
  simp [eq_nil_iff_forall_not_mem, dedup, mem_dedupLoop]

@[simp] lemma isEmpty_dedup : (dedup l).isEmpty = l.isEmpty := by
  rw [Bool.eq_iff_iff, List.isEmpty_iff, List.isEmpty_iff, dedup_eq_nil]

end Dedup

/-! ### Packed bits -/

/-- The family of an address. -/
def Family.ofIp (ip : IpAddr) : Family := if ip.isIpv4 then .v4 else .v6

lemma bits_ofIp (ip : IpAddr) : (Family.ofIp ip).bits = QueryFamilies.ofIp ip := by
  cases ip <;> rfl

variable (f g : Family)

@[simp] lemma contains_bits : f.bits.contains g.bits = decide (f = g) := by
  cases f <;> cases g <;> decide

/-- The set of one family has the addresses of that family. -/
lemma containsIp_bits (ip : IpAddr) : f.bits.containsIp ip = decide (f = .ofIp ip) := by
  rw [QueryFamilies.containsIp, ← bits_ofIp, contains_bits]

@[simp] lemma other_ne : f.other ≠ f := by cases f <;> nofun

lemma bits_other : f.bits.other = f.other.bits := by cases f <;> rfl

/-- Adding a family to a set. -/
@[simp] lemma union_contains (q : QueryFamilies) (f g : Family) :
    (q.union g.bits).contains f.bits = (q.contains f.bits || decide (f = g)) := by
  obtain ⟨b⟩ := q
  cases f <;> cases g <;> revert b <;> decide +kernel

variable (ips : List IpAddr)

/-- The families of a list of addresses are those that one of the addresses has. -/
lemma fromIps_contains (f : Family) :
    (QueryFamilies.fromIps ips).contains f.bits = ips.any f.bits.containsIp := by
  have hfold : ∀ (q : QueryFamilies),
      (ips.foldl (fun families ip => families.union (.ofIp ip)) q).contains f.bits =
        (q.contains f.bits || ips.any f.bits.containsIp) := by
    induction ips with
    | nil => simp
    | cons ip ips ih =>
      intro q
      rw [foldl_cons, ih, ← bits_ofIp, union_contains, ← containsIp_bits, any_cons, Bool.or_assoc]
  have hnone : QueryFamilies.none.contains f.bits = false := by cases f <;> decide
  rw [QueryFamilies.fromIps, hfold, hnone, Bool.false_or]

/-- An address belongs to exactly one family. -/
@[simp] lemma filter_filter_bits :
    (ips.filter g.bits.containsIp).filter f.bits.containsIp =
      if f = g then ips.filter f.bits.containsIp else [] := by
  split_ifs with h
  · simp [h]
  · simp only [filter_filter, containsIp_bits, filter_eq_nil_iff]
    grind

open NegKind

section NegKind

variable (n : NegKind) (f : Family)

lemma familyShift_v4 : NegKind.familyShift Family.v4.bits = 0 := by decide

lemma familyShift_v6 : NegKind.familyShift Family.v6.bits = 2 := by decide

/-- The code written for a family is read back, and that of the other family stays. -/
@[simp] lemma get_with (g : Family) (k : BitVec 8) :
    (n.with g.bits k).get f.bits = if f = g then k &&& 3#8 else n.get f.bits := by
  cases f <;> cases g <;>
    simp only [NegKind.get, NegKind.with, familyShift_v4, familyShift_v6, reduceCtorEq,
      if_false] <;>
    ext i hi <;> interval_cases i <;> simp

@[simp] lemma get_and_three : n.get f.bits &&& 3#8 = n.get f.bits := by
  rw [NegKind.get, BitVec.and_assoc, BitVec.and_self]

@[simp] lemma code_and_three (neg : FamilyNeg) : NegKind.code neg &&& 3#8 = NegKind.code neg := by
  cases neg <;> rfl

@[simp] lemma code_eq_nxDomain {neg} : code neg = code .nxDomain ↔ neg = .nxDomain := by
  cases neg <;> simp [code]

/-- A family's kind is NXDOMAIN exactly when its code is. -/
lemma familyKind_eq_nxDomain :
    n.familyKind f.bits = .nxDomain ↔ n.get f.bits = NegKind.code .nxDomain := by
  unfold familyKind
  split_ifs with h1 h2
  · simp [h1, code]
  · simp [h2]
  · simp [h2]

end NegKind

/-! ### What is known about one family -/

/-- A family's answer as long as it is fresh: its addresses, whether it is an NXDOMAIN, and when
it expires. -/
structure Slot where
  ips : List IpAddr
  nx : Bool
  expire : ℕ
  deriving DecidableEq

/-- What an entry knows about a family. -/
def CacheEntry.slot (e : CacheEntry) (f : Family) (now : ℕ) : Option Slot :=
  if e.fresh f.bits now then
    some ⟨dedup (e.ips.filter f.bits.containsIp),
      (e.ips.filter f.bits.containsIp).isEmpty &&
        decide (e.neg.get f.bits = NegKind.code .nxDomain), e.expireOf f.bits⟩
  else none

/-- What the entry of a name, if there is one, knows about a family. -/
def entrySlot (e : Option CacheEntry) (f : Family) (now : ℕ) : Option Slot :=
  e.bind fun e => e.slot f now

/-- What a register knows. -/
def Register.slot (r : Register) (now : ℕ) : Option Slot :=
  r.bind fun rec =>
    if rec.expire > now then
      some ⟨dedup rec.ips, rec.ips.isEmpty && decide (rec.neg = .nxDomain), rec.expire⟩
    else none

/-- The hit that follows from it. -/
def Slot.hit (s : Option Slot) (now : ℕ) : FamilyCacheHit :=
  match s with
  | none => .miss
  | some s =>
    if s.ips = [] then if s.nx then .nxDomain else .noData else .answer s.ips (s.expire - now)

open CacheEntry

/-- A cache hit is what the entry knows. -/
lemma distinct_familyHit (e : CacheEntry) (f : Family) (now : ℕ) :
    (familyHit e f.bits (e.fresh f.bits now) now).distinct = Slot.hit (e.slot f now) now := by
  unfold familyHit slot
  cases hfresh : e.fresh f.bits now with
  | false => rfl
  | true =>
    have hkind := familyKind_eq_nxDomain e.neg f
    by_cases hips : e.ips.filter f.bits.containsIp = []
    · simp only [Slot.hit, hips, isEmpty_nil, Bool.true_and, ← hkind]
      cases e.neg.familyKind f.bits <;> simp [FamilyCacheHit.distinct]
    · simp [Slot.hit, hips, FamilyCacheHit.distinct]

/-- A register's answer is what it knows. -/
lemma distinct_read (r : Register) (now : ℕ) :
    (r.read now).distinct = Slot.hit (r.slot now) now := by
  cases r with
  | none => rfl
  | some rec =>
    simp only [Register.read, Register.slot]
    split_ifs with hexp hips hnx <;> simp [FamilyCacheHit.distinct, Slot.hit, *]

/-- As time passes, an entry forgets what expires. -/
lemma entrySlot_later (e : Option CacheEntry) (f : Family) {now later : ℕ} (h : now ≤ later) :
    entrySlot e f later = (entrySlot e f now).filter fun s => decide (s.expire > later) := by
  cases e with
  | none => rfl
  | some e => grind [entrySlot, slot, fresh, Option.filter]

/-- As time passes, a register forgets what expires. -/
lemma Register.slot_later (r : Register) {now later} (h : now ≤ later) :
    r.slot later = (r.slot now).filter fun s => decide (s.expire > later) := by
  cases r with
  | none => rfl
  | some rec => grind [Register.slot, Option.filter]

/-! ### Writes for one family -/

section Merge

variable (e : CacheEntry) (f : Family) (x : ℕ)

/-- What is known after a write of `ips` and `neg` at time `now`. -/
def Slot.written (ips : List IpAddr) (now ttl : ℕ) (neg : FamilyNeg) : Option Slot :=
  if now + ttl > now then
    some ⟨dedup ips, ips.isEmpty && decide (neg = .nxDomain), now + ttl⟩
  else none

/-- A NODATA does not take the place of what is known, if that is more than a NODATA. -/
def Slot.keeps (s : Option Slot) (ips : List IpAddr) (neg : FamilyNeg) : Bool :=
  decide (neg = .noData) && ips.isEmpty && s.any fun s => s.nx || !s.ips.isEmpty

/-- What is known after a write for the family. -/
def Slot.merge (s : Option Slot) (ips : List IpAddr) (now ttl : ℕ) (neg : FamilyNeg) :
    Option Slot :=
  if Slot.keeps s ips neg then s else Slot.written ips now ttl neg

lemma Register.slot_merge (r : Register) (ips : List IpAddr) (now ttl : ℕ) (neg : FamilyNeg) :
    (r.merge ips now ttl neg).slot now = Slot.merge (r.slot now) ips now ttl neg := by
  cases r with
  | none => simp [Register.merge, Register.slot, Slot.merge, Slot.keeps, Slot.written]
  | some rec =>
    have hkeep : Slot.keeps (Register.slot (some rec) now) ips neg ↔
        rec.expire > now ∧ neg = .noData ∧ ips = [] ∧ (rec.neg = .nxDomain ∨ rec.ips ≠ []) := by
      by_cases hexp : rec.expire > now
      · by_cases hips : rec.ips = [] <;>
          simp [Slot.keeps, Register.slot, hexp, hips, and_assoc]
      · simp [Slot.keeps, Register.slot, hexp]
    unfold Slot.merge
    split_ifs with hkeeps
    · rw [Register.merge, if_pos (hkeep.mp hkeeps)]
    · rw [Register.merge, if_neg (mt hkeep.mpr hkeeps)]
      rfl

/-- The condition under which `merge_family` keeps the family, in terms of what is known. -/
lemma preserveExisting_eq (existing : CacheEntry) (ips : List IpAddr) (now : ℕ) (neg : FamilyNeg) :
    preserveExisting existing f.bits ips now neg =
      Slot.keeps (existing.slot f now) ips neg := by
  unfold preserveExisting Slot.keeps slot
  cases existing.fresh f.bits now with
  | false => simp
  | true => cases hips : (existing.ips.filter f.bits.containsIp).isEmpty <;> simp [hips]

@[simp] lemma setExpire_v4 : e.setExpire Family.v4.bits x = { e with expireV4 := x } := rfl

@[simp] lemma setExpire_v6 : e.setExpire Family.v6.bits x = { e with expireV6 := x } := rfl

@[simp] lemma expireOf_v4 : e.expireOf Family.v4.bits = e.expireV4 := rfl

@[simp] lemma expireOf_v6 : e.expireOf Family.v6.bits = e.expireV6 := rfl

/-- **A write for a family.** The new entry knows of the family what follows from the write and from
what the old one knew, and of the other one what the old one did. -/
lemma slot_mergeEntry (existing : Option CacheEntry) (ips : List IpAddr)
    (hips : ∀ ip ∈ ips, f.bits.containsIp ip) (now ttl : ℕ) (source : Option Str)
    (neg : FamilyNeg) :
    (mergeEntry existing f.bits ips now ttl source neg).slot f now =
        Slot.merge (entrySlot existing f now) ips now ttl neg ∧
      (mergeEntry existing f.bits ips now ttl source neg).slot f.other now =
        entrySlot existing f.other now := by
  have hall : ips.filter f.bits.containsIp = ips := filter_eq_self.mpr hips
  have hnone : ips.filter f.other.bits.containsIp = [] := by
    rw [← hall, filter_filter_bits, if_neg (other_ne f)]
  cases existing with
  | none =>
    simp [mergeEntry, mergeStart, slot, fresh, entrySlot, Slot.merge, Slot.keeps, hall,
      Slot.written, expireOf, (other_ne f).symm]
  | some existing =>
    simp only [mergeEntry, mergeSame, mergeOther, bits_other]
    constructor
    · rw [entrySlot, Option.bind_some, Slot.merge, ← preserveExisting_eq]
      by_cases hpres : preserveExisting existing f.bits ips now neg
      · have hold := hpres
        simp only [preserveExisting, Bool.and_eq_true, Bool.or_eq_true, Bool.not_eq_true',
          List.isEmpty_iff] at hold
        split_ifs <;> cases f <;> simp_all [-filter_filter, mergeStart, slot, fresh, Family.other]
      · split_ifs <;> cases f <;>
          simp [-filter_filter, mergeStart, slot, fresh, Slot.written, Family.other, hall]
    · cases f <;> rw [Family.other] at hnone ⊢ <;> split_ifs <;>
        simp_all [-filter_filter, -filter_eq_nil_iff, mergeStart, slot, fresh, entrySlot]

end Merge

/-- A replacement of the whole entry writes both registers. -/
lemma slot_putEntry (now ttl : ℕ) (source : Option Str) (f : Family) :
    (putEntry ips now ttl source).slot f now = (Register.replace f ips now ttl).slot now := by
  have hexp : (putEntry ips now ttl source).expireOf f.bits = now + ttl := by
    simp [expireOf, putEntry]
  by_cases hnil : ips = []
  · subst hnil
    have hboth : QueryFamilies.both.contains f.bits := by cases f <;> decide
    have hneg : ((empty.with .ipv4 (code .nxDomain)).with .ipv6 (code .nxDomain)).get f.bits =
        code .nxDomain := by cases f <;> decide
    simp only [slot, fresh, hexp]
    simp [putEntry, Register.replace, Register.slot, hboth, hneg]
  · have hneg : empty.get f.bits ≠ code .nxDomain := by cases f <;> decide
    simp only [slot, fresh]
    by_cases hfilter : ips.filter f.bits.containsIp = []
    all_goals
      have hany := hfilter
      simp only [filter_eq_nil_iff] at hany
      simp_all [-filter_eq_nil_iff, putEntry, Register.replace, Register.slot, fromIps_contains]

/-! ### The entries of a cache -/

open DnsCache

section Entries

variable {C : Type → Type → Type} [LruCache C]

/-- The cache has `e` under `key`, and every other name has its entry still, unless its shard was
full. -/
structure Writes (before after : DnsCache C) (key : Str) (e : CacheEntry) : Prop where
  self : after.entry key = some e
  other : ∀ name ≠ key, after.entry name = before.entry name ∨
    after.entry name = none ∧ before.full name = true

variable (c : DnsCache C)

/-- A shard with the same entries gives a cache with the same entries. -/
lemma find_update_shard (key name : Str) {shard}
    (hshard : find shard name = find (c.cache (shardStr key)) name) :
    find (update c.cache (shardStr key) shard (shardStr name)) name = c.entry name := by
  by_cases hname : shardStr name = shardStr key
  · rw [hname, update_self, hshard, entry, hname]
  · rw [update_of_ne hname, entry]

/-- Writing an entry leaves the others, or removes one from the shard that has become too
large. The entries before may have been used in another order. -/
lemma writes_insert {c' : DnsCache C} (hentry : ∀ name, c'.entry name = c.entry name)
    (hcap : c'.fwdShardCap = c.fwdShardCap) {key e}
    (hlen : len (c'.written key e) ≤ len (c.cache (shardStr key)) + 1) :
    Writes c (c'.insert key e) key e := by
  have hnew : newest (c'.written key e) = some (key, e) := newest_put _ key e
  constructor
  · simp only [DnsCache.entry, DnsCache.insert, update_self]
    split_ifs
    · have hpos := c'.fwdShardCap_pos
      exact find_of_newest ((newest_popLru (by omega)).trans hnew)
    · exact find_of_newest hnew
  · intro name hne
    rw [← hentry name]
    simp only [DnsCache.entry, DnsCache.insert]
    by_cases hshard : shardStr name = shardStr key
    · have hfind : find (c'.written key e) name = find (c'.cache (shardStr key)) name := by
        rw [DnsCache.written, find_put, if_neg hne]
      rw [hshard, update_self, ← hfind]
      split_ifs
      · refine (find_popLru_or _ name).imp_right fun hnone => ⟨hnone, ?_⟩
        rw [full, hshard, decide_eq_true_eq]
        omega
      · exact .inl rfl
    · rw [update_of_ne hshard]
      exact .inl rfl

/-- The reverse map is apart from the forward one. -/
lemma putReverse_cache (key : Str) (ips : List IpAddr) (expireAt : ℕ) :
    (c.putReverse key ips expireAt).cache = c.cache ∧
      (c.putReverse key ips expireAt).fwdShardCap = c.fwdShardCap := by
  induction ips generalizing c with
  | nil => exact ⟨rfl, rfl⟩
  | cons ip ips ih =>
    exact ih _

variable (domain : Str)

lemma writes_put (ips : List IpAddr) (now ttl : ℕ) (source : Option Str) :
    Writes c (c.putWithSource domain ips now ttl source) (normalizeDomain domain)
      (putEntry ips now ttl source) := by
  obtain ⟨hcache, hcap⟩ := putReverse_cache c (normalizeDomain domain) ips
    (now + max ttl reverseTtlFloor)
  refine writes_insert c (fun name => by rw [entry, hcache, entry]) hcap ?_
  rw [written, hcache]
  exact len_put_le _ _ _

/-- `merge_family` reads the entry before it writes the new one. -/
lemma writes_merge (f : Family) (ips : List IpAddr) (now ttl : ℕ) (source : Option Str)
    (neg : FamilyNeg) :
    Writes c (c.mergeFamily domain f.bits ips now ttl source neg) (normalizeDomain domain)
      (mergeEntry (c.entry (normalizeDomain domain)) f.bits ips now ttl source neg) := by
  set key := normalizeDomain domain
  obtain ⟨hcache, hcap⟩ := putReverse_cache c key ips (now + max ttl reverseTtlFloor)
  set c₁ := c.putReverse key ips (now + max ttl reverseTtlFloor)
  set c₂ : DnsCache C := { c₁ with
    cache := update c₁.cache (shardStr key) (get (c₁.cache (shardStr key)) key).2 }
  set e := mergeEntry (c.entry key) f.bits ips now ttl source neg
  have hmerge : c.mergeFamily domain f.bits ips now ttl source neg = c₂.insert key e := by
    have hsingle : ¬(f.bits ≠ .ipv4 ∧ f.bits ≠ .ipv6) := by cases f <;> simp [Family.bits]
    have hread : (get (c₁.cache (shardStr key)) key).1 = c.entry key := by
      rw [get_eq_find, hcache, entry]
    rw [mergeFamily, if_neg hsingle]
    simp only [e, ← hread]
    rfl
  -- reading changes the order of use only
  have hentry : ∀ name, c₂.entry name = c.entry name := by
    intro name
    simp only [c₂, entry, hcache]
    exact find_update_shard c key name (find_get _ _ _)
  rw [hmerge]
  refine writes_insert c hentry hcap ?_
  simp only [written, c₂, update_self, hcache]
  exact len_put_get_le _ _ _

/-- A lookup answers from the entry of the name. -/
lemma hit_getLookup (now : ℕ) (f : Family) :
    (CacheLookup.hit (c.getLookup domain now).1 f).distinct =
      Slot.hit (entrySlot (c.entry (normalizeDomain domain)) f now) now := by
  have hget : (get (c.cache (shardStr (normalizeDomain domain))) (normalizeDomain domain)).1 =
      c.entry (normalizeDomain domain) := get_eq_find _ _
  cases hentry : c.entry (normalizeDomain domain) with
  | none =>
    simp only [getLookup, hget, hentry]
    rfl
  | some e =>
    rw [entrySlot, Option.bind_some, ← distinct_familyHit]
    simp only [getLookup, hget, hentry]
    split_ifs with hfresh
    · cases f <;> rfl
    · -- neither family is fresh
      simp only [Bool.or_eq_true, not_or] at hfresh
      cases f <;> simp [Family.bits, hfresh, familyHit, CacheLookup.hit]

/-- A lookup removes an entry only if nothing in it is fresh. -/
lemma entrySlot_getLookup (now : ℕ) (name : Str) (f : Family) :
    entrySlot ((c.getLookup domain now).2.entry name) f now = entrySlot (c.entry name) f now := by
  set key := normalizeDomain domain with hkey
  have hget : (get (c.cache (shardStr key)) key).1 = c.entry key := get_eq_find _ _
  cases hentry : c.entry key with
  | none =>
    simp only [getLookup, ← hkey, hget, hentry]
    rw [entry, find_update_shard c key name (find_get _ _ _)]
  | some e =>
    simp only [getLookup, ← hkey, hget, hentry]
    split_ifs with hfresh
    · rw [entry, find_update_shard c key name (find_get _ _ _)]
    · by_cases hname : name = key
      · -- the entry that is removed has nothing fresh
        have hnone : e.slot f now = none := by
          simp only [Bool.or_eq_true, not_or] at hfresh
          cases f <;> simp [slot, Family.bits, hfresh]
        rw [hname, hentry, entry]
        simp only [update_self, find_pop]
        exact hnone.symm
      · rw [entry, find_update_shard c key name (by rw [find_pop, if_neg hname, find_get])]

end Entries

/-! ### The cache answers as the registers do -/

section Sim

variable {C : Type → Type → Type} [LruCache C]

/-- Of each name and family, the cache knows what the register knows. -/
def CacheSim (s : CacheRun C) : Prop :=
  ∀ name f, entrySlot (s.cache.entry name) f s.now = (s.regs name f).slot s.now

namespace CacheSim

variable {s : CacheRun C}

/-- Time passes for both alike. -/
lemma later (h : CacheSim s) (wait : ℕ) (name : Str) (f : Family) :
    entrySlot (s.cache.entry name) f (s.now + wait) = (s.regs name f).slot (s.now + wait) := by
  rw [entrySlot_later _ _ (Nat.le_add_right s.now wait), h name f,
    ← Register.slot_later _ (Nat.le_add_right s.now wait)]

/-- A write for a name. -/
lemma write (h : CacheSim s) {after key} {e : CacheEntry} {wait value}
    (hw : Writes s.cache after key e)
    (hv : ∀ f, e.slot f (s.now + wait) = (value f).slot (s.now + wait)) :
    CacheSim ⟨after, writeRegs s.cache after key value s.regs, s.now + wait⟩ := by
  intro name f
  simp only [writeRegs]
  by_cases hname : name = key
  · subst hname
    rw [if_pos rfl, hw.self, entrySlot, Option.bind_some, hv]
  · rw [if_neg hname]
    have hlater := h.later wait name f
    rcases hw.other name hname with hsame | ⟨hnone, hfull⟩
    · rw [hsame, hlater]
      cases s.cache.entry name <;> simp
    · rw [hnone, hfull]
      cases hentry : s.cache.entry name with
      | none => simpa [hentry] using hlater
      | some e => simp [entrySlot, Register.slot]

/-- **The step.** Each operation keeps the cache and the registers together. -/
lemma step (h : CacheSim s) (op : CacheOp) : CacheSim (s.step op) := by
  cases op with
  | put wait domain ips ttl source =>
    exact h.write (writes_put _ _ _ _ _ _) fun f => slot_putEntry ips _ ttl source f
  | merge wait domain family ips ttl source neg =>
    refine h.write (writes_merge _ _ _ _ _ _ _ _) fun f => ?_
    by_cases hf : f = family
    · subst hf
      rw [if_pos rfl, (slot_mergeEntry f _ ips.1 ips.2 _ _ _ _).1, Register.slot_merge, h.later]
    · have hother : f = family.other := by
        cases f <;> cases family <;> simp_all [Family.other]
      rw [if_neg hf, hother, (slot_mergeEntry family _ ips.1 ips.2 _ _ _ _).2, h.later]
  | lookup wait domain =>
    intro name f
    exact (entrySlot_getLookup s.cache domain (s.now + wait) name f).trans (h.later wait name f)
  | clear wait =>
    intro name f
    simp [CacheRun.step, DnsCache.clear, DnsCache.entry, entrySlot, Register.slot]

/-- **The run.** -/
lemma run (capacity : ℕ) (ops : List CacheOp) :
    CacheSim (CacheRun.run capacity ops : CacheRun C) := by
  refine foldlRecOn ops _ (fun name f => ?_) fun s h op _ => h.step op
  simp [CacheRun.new, new, entry, entrySlot, Register.slot]

end CacheSim

end Sim

/-- What a lookup says about a family one nanosecond after the operations. -/
def hitAfter (ops : List CacheOp) (domain : Str) (f : Family) : FamilyCacheHit :=
  let s : CacheRun ListLru := CacheRun.run 16 ops
  CacheLookup.hit (s.cache.getLookup domain (s.now + 1)).1 f

end Meow.Dns
